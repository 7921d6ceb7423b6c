import NexusEtl.Dsl
import NexusEtl.NumericText

/-!
# Building a payload from a sink spec

The schema check and the payload builder read the same field specs with rules of
their own. A row that passes the check is built into a payload unless a text has
digits that are not decimal, a number is too large for its type, or a boolean is
missing that need not be there; the values are those that the fields declare
unless a missing one is emitted for a field that is not nullable.
-/

set_option autoImplicit false

namespace NexusEtl
open NexusEtl.Library

/-- `serialize` of a boolean field. -/
inductive SinkFieldSerialize
  | native
  | literalMap (onTrue onFalse : Value)
  deriving DecidableEq, Repr

/-- A sink field with what decides its place and form in the payload. -/
structure SinkOutputField extends SinkFieldSpec where
  target : Option String
  serialize : Option SinkFieldSerialize
  serialize_bool : serialize.isSome → type = .bool

structure SinkOutputSpec where
  fields : List SinkOutputField
  systemFields : List SinkFieldSpec

def SinkOutputSpec.schema (spec : SinkOutputSpec) : SinkSpec :=
  ⟨spec.fields.map SinkOutputField.toSinkFieldSpec,spec.systemFields⟩

/-- A value of a payload; `double v` is the float that `float(v)` makes of a number or a text. -/
inductive PayloadValue
  | value (v : Value)
  | double (v : Value)
  deriving DecidableEq, Repr

abbrev Payload := Dict String PayloadValue

section Coercions

/-- The digits before the first character that cannot belong to a number. -/
def leadingDigits (s : String) : Nat :=
  let body := Text.dropSign (Text.stripNumber s).toList
  ((body.takeWhile fun c => Text.isDecimalChar c || c == '_').filter Text.isDecimalChar).length

/-- The error of `int(text)`. -/
def intTextError (s : String) : PyException :=
  if 4300 < leadingDigits s then
    ⟨"ValueError","Exceeds the limit (4300 digits) for integer string conversion: value has " ++
      Nat.repr (leadingDigits s) ++
      " digits; use sys.set_int_max_str_digits() to increase the limit"⟩
  else ⟨"ValueError","invalid literal for int() with base 10: " ++ Value.pyRepr (.str s)⟩

def toIntOrNone : Value → Except PyException Value
  | .null => .ok .null
  | .bool _ => .error ⟨"ValueError","bool is not valid for integer field"⟩
  | .str s =>
    if s = "" then .ok .null
    else match Text.parseInt (Text.strip s) with
      | some n => .ok (.int n)
      | none => .error (intTextError (Text.strip s))
  | .int n => .ok (.int n)
  | .float q => .ok (.int (q.num.tdiv q.den))
  | .list items => .error ⟨"TypeError","int() argument must be a string, a bytes-like object or " ++
      "a real number, not '" ++ (Value.list items).typeName ++ "'"⟩
  | .dict fields => .error ⟨"TypeError","int() argument must be a string, a bytes-like object or " ++
      "a real number, not '" ++ (Value.dict fields).typeName ++ "'"⟩

def toBool : Value → Except PyException Bool
  | .bool b => .ok b
  | .int n => .ok (n != 0)
  | .str s =>
    let normalized := Text.lower (Text.strip s)
    if normalized ∈ ["1","true","yes","y"] then .ok true
    else if normalized ∈ ["0","false","no","n"] then .ok false
    else .error ⟨"ValueError","Invalid boolean value: " ++ Value.pyRepr (.str s)⟩
  | value => .error ⟨"ValueError","Invalid boolean value: " ++ Value.pyRepr value⟩

/-- The least integer that rounds to no finite double. -/
@[irreducible] def doubleBound : Nat := 2 ^ 1024 - 2 ^ 970

def FitsDouble (n : Int) : Prop := n.natAbs < doubleBound

instance (n : Int) : Decidable (FitsDouble n) := inferInstanceAs (Decidable (_ < _))

def toFloatOrNone : Value → Except PyException PayloadValue
  | .null => .ok (.value .null)
  | .bool _ => .error ⟨"ValueError","bool is not valid for float field"⟩
  | .str s =>
    if s = "" then .ok (.value .null)
    else if Text.isFloatText (Text.strip s) then .ok (.double (.str (Text.strip s)))
    else .error ⟨"ValueError","could not convert string to float: " ++
      Value.pyRepr (.str (Text.strip s))⟩
  | .int n =>
    if FitsDouble n then .ok (.double (.int n))
    else .error ⟨"OverflowError","int too large to convert to float"⟩
  | .float q => .ok (.value (.float q))
  | .list items => .error ⟨"TypeError","float() argument must be a string or a real number, not '"
      ++ (Value.list items).typeName ++ "'"⟩
  | .dict fields => .error ⟨"TypeError","float() argument must be a string or a real number, not '"
      ++ (Value.dict fields).typeName ++ "'"⟩

/-- `_COERCIONS`. -/
def coerce (type : SinkType) (value : Value) : Except PyException PayloadValue :=
  match type with
  | .string | .object | .list => .ok (.value value)
  | .bool => (toBool value).map fun b => .value (.bool b)
  | .int => (toIntOrNone value).map .value
  | .float => toFloatOrNone value

end Coercions

def PayloadValue.typeName : PayloadValue → String
  | .value v => v.typeName
  | .double _ => "float"

namespace SinkOutputField

variable (field : SinkOutputField)

def targetKey : String :=
  match field.target with
  | some target => if target = "" then field.name else target
  | none => field.name

/-- `_apply_output_serialization`. -/
def applyOutputSerialization (canonical : PayloadValue) : Except PyException PayloadValue :=
  match field.serialize with
  | none | some .native => .ok canonical
  | some (.literalMap onTrue onFalse) =>
    if field.type ≠ .bool then
      .error ⟨"ValueError","serialize is not supported for sink type " ++
        Value.pyRepr (.str field.type.name)⟩
    else match canonical with
      | .value .null => .ok (.value .null)
      | .value (.bool b) => .ok (.value (if b then onTrue else onFalse))
      | other => .error ⟨"ValueError","serialize requires canonical bool value for field " ++
          Value.pyRepr (.str field.name) ++ ", got " ++ other.typeName⟩

/-- `serialize_sink_field_value`. -/
def serializeValue (value : Value) : Except PyException PayloadValue := do
  field.applyOutputSerialization (← coerce field.type value)

end SinkOutputField

structure SinkDrivenPayloadBuilder where
  sinkSpec : SinkOutputSpec
  defaults : Fields
  conditionalFields : List String

namespace SinkDrivenPayloadBuilder

variable (builder : SinkDrivenPayloadBuilder)

/-- The fields whose target is not set by a default. -/
def fields : List SinkOutputField :=
  builder.sinkSpec.fields.filter fun f => !Dict.contains builder.defaults f.targetKey

def isConditional (field : SinkOutputField) : Bool :=
  builder.conditionalFields.contains field.name

def validateRequired (source : Fields) : Except PyException Unit :=
  let missing := builder.fields.filter fun f => f.required && !f.nullable &&
    !builder.isConditional f && (Fields.read source f.name).isBlank
  if missing.isEmpty then .ok ()
  else .error ⟨"ValueError","Missing required fields for payload: " ++
    Text.join ", " (missing.map fun f => f.name)⟩

/-- One field of `_build_payload`. -/
def emit (preview : Bool) (source : Fields) (payload : Payload) (field : SinkOutputField) :
    Except PyException Payload :=
  let value := Fields.read source field.name
  if builder.isConditional field && value.isBlank then .ok payload
  else if value.isNull && field.nullable then
    .ok (Dict.set payload field.targetKey (.value .null))
  else match field.serializeValue value with
    | .ok v => .ok (Dict.set payload field.targetKey v)
    | .error e => if preview then .ok (Dict.set payload field.targetKey (.value value)) else .error e

def buildPayload (preview : Bool) (source : Fields) : Except PyException Payload :=
  builder.fields.foldlM (builder.emit preview source) []

def withDefaults (payload : Payload) : Payload :=
  builder.defaults.foldl (fun d entry => Dict.set d entry.1 (.value entry.2)) payload

/-- `__call__`. -/
def call (source : Fields) : Except PyException Payload := do
  builder.validateRequired source
  return builder.withDefaults (← builder.buildPayload false source)

def buildPreview (source : Fields) : Except PyException Payload := do
  return builder.withDefaults (← builder.buildPayload true source)

/-- The fields that a row puts into its payload. -/
def written (source : Fields) : List SinkOutputField :=
  builder.fields.filter fun f =>
    !(builder.isConditional f && (Fields.read source f.name).isBlank)

/-- The field whose value stands under the key in the end. -/
def lastFor (source : Fields) (key : String) : Option SinkOutputField :=
  (builder.written source).reverse.find? fun f => f.targetKey == key

end SinkDrivenPayloadBuilder

def PayloadValue.hasType : PayloadValue → SinkType → Bool
  | .value (.str _), .string => true
  | .value (.bool _), .bool => true
  | .value (.int _), .int => true
  | .value (.float _), .float => true
  | .double _, .float => true
  | .value (.dict _), .object => true
  | .value (.list _), .list => true
  | _, _ => false

namespace SinkOutputField

variable (field : SinkOutputField)

/-- The value is of the type of the field, or one of its literals, or stands for none. -/
def Declares (v : PayloadValue) : Prop :=
  (field.nullable = true ∧ v = .value .null) ∨ match field.serialize with
    | some (.literalMap onTrue onFalse) => v = .value onTrue ∨ v = .value onFalse
    | _ => v.hasType field.type = true

/-- The coercion of the field accepts the value, if its type check does. -/
def Coercible (value : Value) : Prop :=
  match field.type with
  | .bool => value.isNull = true → field.nullable = true
  | .int => ∀ s, value = .str s → (∀ c ∈ (Text.strip s).toList, Text.isDecimalChar c = true) ∧
      (Text.strip s).length ≤ 4300
  | .float => ∀ n, value = .int n → FitsDouble n
  | _ => True

/-- What the field puts into the payload. -/
def emission (value : Value) : Except PyException PayloadValue :=
  if value.isNull && field.nullable then .ok (.value .null) else field.serializeValue value

variable {field}

/-- A boolean is written as it is or by its literal. -/
theorem applyOutputSerialization_bool (htype : field.type = .bool) (b : Bool) :
    ∃ v, field.applyOutputSerialization (.value (.bool b)) = .ok v ∧ field.Declares v := by
  unfold applyOutputSerialization Declares
  cases hs : field.serialize with
  | none => exact ⟨_,rfl,.inr (by simp [htype, PayloadValue.hasType])⟩
  | some serialize =>
    cases serialize with
    | native => exact ⟨_,rfl,.inr (by simp [htype, PayloadValue.hasType])⟩
    | literalMap onTrue onFalse =>
      refine ⟨.value (if b then onTrue else onFalse),by simp [htype],.inr ?_⟩
      cases b <;> simp

/-- A value of another type is written as it was coerced. -/
theorem serialize_none (htype : field.type ≠ .bool) : field.serialize = none := by
  cases hs : field.serialize with
  | none => rfl
  | some serialize => exact absurd (field.serialize_bool (by simp [hs])) htype

theorem serializeValue_of_ne_bool (htype : field.type ≠ .bool) (value : Value) :
    field.serializeValue value = coerce field.type value := by
  unfold serializeValue applyOutputSerialization
  rw [serialize_none htype]
  cases coerce field.type value with
  | ok v => rfl
  | error e => rfl

theorem declares_of_ne_bool (htype : field.type ≠ .bool) {v : PayloadValue} :
    field.Declares v ↔
      (field.nullable = true ∧ v = .value .null) ∨ v.hasType field.type = true := by
  rw [Declares, serialize_none htype]

/-- The words that the check accepts are those that the coercion reads. -/
theorem toBool_of_word {s : String} (h : Text.lower (Text.strip s) ∈ boolWords) :
    ∃ b, toBool (.str s) = .ok b := by
  have hsplit : ∀ word ∈ boolWords,
      word ∈ ["1","true","yes","y"] ∨ word ∈ ["0","false","no","n"] := by decide
  unfold toBool
  by_cases htrue : Text.lower (Text.strip s) ∈ ["1","true","yes","y"]
  · exact ⟨true,if_pos htrue⟩
  · exact ⟨false,(if_neg htrue).trans (if_pos ((hsplit _ h).resolve_left htrue))⟩

/-- How a value that passes the check is written: coerced as its field declares, or not at all. -/
inductive Written (field : SinkOutputField) (value : Value) : Except PyException PayloadValue → Prop
  | coerced {v : PayloadValue} (hdeclares : field.Declares v) (hnull : value.isNull = false)
      (hcoercible : field.Coercible value) : Written field value (.ok v)
  | absent {v : PayloadValue} (hdeclares : field.Declares v ↔ field.nullable = true)
      (hnull : value.isNull = true) (hcoercible : field.Coercible value) :
      Written field value (.ok v)
  | refused {e : PyException} (hcoercible : ¬field.Coercible value) :
      Written field value (.error e)

theorem emission_null : field.Written .null (field.emission .null) := by
  cases hnullable : field.nullable with
  | true =>
    have hemission : field.emission .null = .ok (.value .null) := by
      simp [emission, Value.isNull, hnullable]
    rw [hemission]
    refine .absent ⟨fun _ => hnullable,fun h => .inl ⟨h,rfl⟩⟩ rfl ?_
    unfold Coercible
    cases field.type <;> simp [hnullable]
  | false =>
    have hemission : field.emission .null = field.serializeValue .null := by
      simp [emission, hnullable]
    rw [hemission]
    by_cases htype : field.type = .bool
    · have hrefused : field.serializeValue .null =
          .error ⟨"ValueError","Invalid boolean value: " ++ Value.pyRepr .null⟩ := by
        unfold serializeValue
        rw [htype]
        rfl
      rw [hrefused]
      exact .refused (by simp [Coercible, htype, hnullable, Value.isNull])
    · rw [serializeValue_of_ne_bool htype]
      have hcoerce : coerce field.type .null = .ok (.value .null) := by
        cases ht : field.type with
        | bool => exact absurd ht htype
        | _ => rfl
      rw [hcoerce]
      refine .absent ?_ rfl ?_
      · rw [declares_of_ne_bool htype]
        cases field.type <;> simp [PayloadValue.hasType]
      · unfold Coercible
        cases ht : field.type with
        | bool => exact absurd ht htype
        | _ => simp

/-- The value of a field that is not boolean is declared if it has the type. -/
theorem Written.of_type (htype : field.type ≠ .bool) {value : Value} {v : PayloadValue}
    (hv : v.hasType field.type = true) (hnull : value.isNull = false)
    (hcoercible : field.Coercible value) : field.Written value (.ok v) :=
  .coerced ((declares_of_ne_bool htype).mpr (.inr hv)) hnull hcoercible

theorem emission_int (htype : field.type = .int) {value : Value} (hnull : value.isNull = false)
    (hm : matchesType value .int = true) : field.Written value (coerce .int value) := by
  have hne : field.type ≠ .bool := by simp [htype]
  cases value with
  | int n => exact .of_type hne (by rw [htype]; rfl) rfl (by simp [Coercible, htype])
  | str s =>
    have hdigits : Text.isDigit (Text.strip s) = true := by simpa [matchesType] using hm
    have hfilled : s ≠ "" := by
      rintro rfl
      revert hdigits
      decide
    have hcoercible : field.Coercible (.str s) ↔ (Text.parseInt (Text.strip s)).isSome = true := by
      rw [Text.parseInt_isSome_iff hdigits, Coercible, htype]
      simp
    cases hparse : Text.parseInt (Text.strip s) with
    | some n =>
      have hcoerce : coerce .int (.str s) = .ok (.value (.int n)) := by
        simp [coerce, toIntOrNone, hfilled, hparse, Except.map]
      rw [hcoerce]
      exact .of_type hne (by rw [htype]; rfl) rfl (hcoercible.mpr (by simp [hparse]))
    | none =>
      have hcoerce : coerce .int (.str s) = .error (intTextError (Text.strip s)) := by
        simp [coerce, toIntOrNone, hfilled, hparse, Except.map]
      rw [hcoerce]
      exact .refused fun h => by simpa [hparse] using hcoercible.mp h
  | _ => cases hm

theorem emission_float (htype : field.type = .float) {value : Value}
    (hm : matchesType value .float = true) : field.Written value (coerce .float value) := by
  have hne : field.type ≠ .bool := by simp [htype]
  cases value with
  | int n =>
    by_cases hfits : FitsDouble n
    · have hcoerce : coerce .float (.int n) = .ok (.double (.int n)) := if_pos hfits
      rw [hcoerce]
      exact .of_type hne (by rw [htype]; rfl) rfl (by simpa [Coercible, htype] using hfits)
    · have hcoerce : coerce .float (.int n) =
          .error ⟨"OverflowError","int too large to convert to float"⟩ := if_neg hfits
      rw [hcoerce]
      exact .refused (by simpa [Coercible, htype] using hfits)
  | float q => exact .of_type hne (by rw [htype]; rfl) rfl (by simp [Coercible, htype])
  | str s =>
    have hfilled : s ≠ "" := by
      rintro rfl
      revert hm
      decide
    have haccepted : Text.isFloatText (Text.strip s) = true :=
      Text.isFloatText_strip (by simpa [matchesType] using hm)
    have hcoerce : coerce .float (.str s) = .ok (.double (.str (Text.strip s))) := by
      rw [coerce, toFloatOrNone, if_neg hfilled, if_pos haccepted]
    rw [hcoerce]
    exact .of_type hne (by rw [htype]; rfl) rfl (by simp [Coercible, htype])
  | _ => cases hm

theorem emission_bool (htype : field.type = .bool) {value : Value}
    (hm : matchesType value .bool = true) : field.Written value (field.serializeValue value) := by
  have hwritten : ∀ b, toBool value = .ok b → value.isNull = false → field.Coercible value →
      field.Written value (field.serializeValue value) := by
    intro b hb hnull hcoercible
    obtain ⟨v,hv,hdeclares⟩ := applyOutputSerialization_bool htype b
    have hserialize : field.serializeValue value = .ok v := by
      rw [← hv, serializeValue, htype, coerce, hb]
      rfl
    rw [hserialize]
    exact .coerced hdeclares hnull hcoercible
  cases value with
  | bool b => exact hwritten b rfl rfl (by simp [Coercible, htype, Value.isNull])
  | str s =>
    have hword : Text.lower (Text.strip s) ∈ boolWords := by simpa [matchesType] using hm
    obtain ⟨b,hb⟩ := toBool_of_word hword
    exact hwritten b hb rfl (by simp [Coercible, htype, Value.isNull])
  | _ => cases hm

/-- A field writes what passes its check if it can be coerced, and then what it declares. -/
theorem emission_written {value : Value}
    (hm : value.isNull = true ∨ matchesType value field.type = true) :
    field.Written value (field.emission value) := by
  by_cases hnull : value.isNull = true
  · cases value with
    | null => exact emission_null
    | _ => cases hnull
  · rw [Bool.not_eq_true] at hnull
    replace hm := hm.resolve_left (by simp [hnull])
    have hemission : field.emission value = field.serializeValue value := by
      simp [emission, hnull]
    rw [hemission]
    by_cases hbool : field.type = .bool
    · exact emission_bool hbool (hbool ▸ hm)
    · rw [serializeValue_of_ne_bool hbool]
      cases htype : field.type with
      | bool => exact absurd htype hbool
      | int => exact emission_int htype hnull (htype ▸ hm)
      | float => exact emission_float htype (htype ▸ hm)
      | string =>
        rw [htype] at hm
        cases value with
        | str s => exact .of_type hbool (by rw [htype]; rfl) rfl (by simp [Coercible, htype])
        | _ => cases hm
      | object =>
        rw [htype] at hm
        cases value with
        | dict entries => exact .of_type hbool (by rw [htype]; rfl) rfl (by simp [Coercible, htype])
        | _ => cases hm
      | list =>
        rw [htype] at hm
        cases value with
        | list items => exact .of_type hbool (by rw [htype]; rfl) rfl (by simp [Coercible, htype])
        | _ => cases hm

end SinkOutputField

namespace SinkDrivenPayloadBuilder

variable (builder : SinkDrivenPayloadBuilder)

/-- Every value of the payload is a default or declared by the last field of its key. -/
def Declared (source : Fields) (payload : Payload) : Prop :=
  ∀ key v, Dict.get? payload key = some v → (∃ w, (key,w) ∈ builder.defaults ∧ v = .value w) ∨
    ∃ field, builder.lastFor source key = some field ∧ field.Declares v

/-- The values that are written can be coerced, and none is missing that stays in the payload. -/
def Accepts (source : Fields) : Prop :=
  (∀ field ∈ builder.written source, field.Coercible (Fields.read source field.name)) ∧
  ∀ key field, builder.lastFor source key = some field →
    (Fields.read source field.name).isNull = true → field.nullable = true

section Loop

variable {builder} {source : Fields}

/-- What a written field does to the payload. -/
def put (source : Fields) (payload : Payload) (field : SinkOutputField) :
    Except PyException Payload :=
  (field.emission (Fields.read source field.name)).map (Dict.set payload field.targetKey)

theorem put_ok {payload : Payload} {field : SinkOutputField} {v : PayloadValue}
    (h : field.emission (Fields.read source field.name) = .ok v) :
    put source payload field = .ok (Dict.set payload field.targetKey v) := by
  rw [put, h]
  rfl

theorem put_error {payload : Payload} {field : SinkOutputField} {e : PyException}
    (h : field.emission (Fields.read source field.name) = .error e) :
    put source payload field = .error e := by
  rw [put, h]
  rfl

theorem emit_of_written {payload : Payload} {field : SinkOutputField}
    (h : (builder.isConditional field && (Fields.read source field.name).isBlank) = false) :
    builder.emit false source payload field = put source payload field := by
  unfold emit put SinkOutputField.emission
  dsimp only
  rw [if_neg (by simp [h])]
  split
  · rfl
  · cases field.serializeValue (Fields.read source field.name) with
    | ok v => rfl
    | error e => rfl

/-- The builder writes its written fields one after the other. -/
theorem buildPayload_written (builder : SinkDrivenPayloadBuilder) (source : Fields) :
    builder.buildPayload false source = (builder.written source).foldlM (put source) [] := by
  have hloop : ∀ (fields : List SinkOutputField) (payload : Payload),
      fields.foldlM (builder.emit false source) payload =
        (fields.filter fun f => !(builder.isConditional f &&
          (Fields.read source f.name).isBlank)).foldlM (put source) payload := by
    intro fields
    induction fields with
    | nil => exact fun payload => rfl
    | cons field fields ih =>
      intro payload
      cases hskip : builder.isConditional field && (Fields.read source field.name).isBlank with
      | true =>
        have hemit : builder.emit false source payload field = .ok payload := if_pos hskip
        rw [List.filter_cons_of_neg (by simp [hskip]), List.foldlM_cons, hemit]
        exact ih payload
      | false =>
        rw [List.filter_cons_of_pos (by simp [hskip]), List.foldlM_cons, List.foldlM_cons,
          emit_of_written hskip]
        exact bind_congr ih
  exact hloop builder.fields []

theorem puts_ok {fields : List SinkOutputField} {acc payload : Payload}
    (h : fields.foldlM (put source) acc = .ok payload) :
    ∀ field ∈ fields, ∃ v, field.emission (Fields.read source field.name) = .ok v := by
  induction fields generalizing acc with
  | nil => simp
  | cons field fields ih =>
    rw [List.foldlM_cons] at h
    cases hv : field.emission (Fields.read source field.name) with
    | error e =>
      rw [put_error hv] at h
      cases h
    | ok v =>
      rw [put_ok hv] at h
      exact List.forall_mem_cons.mpr ⟨⟨v,hv⟩,ih h⟩

theorem puts_exist {fields : List SinkOutputField} (acc : Payload)
    (h : ∀ field ∈ fields, ∃ v, field.emission (Fields.read source field.name) = .ok v) :
    ∃ payload, fields.foldlM (put source) acc = .ok payload := by
  induction fields generalizing acc with
  | nil => exact ⟨acc,rfl⟩
  | cons field fields ih =>
    obtain ⟨⟨v,hv⟩,hrest⟩ := List.forall_mem_cons.mp h
    rw [List.foldlM_cons, put_ok hv]
    exact ih _ hrest

/-- Under a key stands what the last field of the key wrote. -/
theorem puts_get {fields : List SinkOutputField} {acc payload : Payload}
    (h : fields.foldlM (put source) acc = .ok payload) (key : String) :
    match fields.reverse.find? fun f => f.targetKey == key with
    | some field => ∃ v, field.emission (Fields.read source field.name) = .ok v ∧
        Dict.get? payload key = some v
    | none => Dict.get? payload key = Dict.get? acc key := by
  induction fields generalizing acc with
  | nil =>
    cases h
    rfl
  | cons field fields ih =>
    rw [List.foldlM_cons] at h
    cases hv : field.emission (Fields.read source field.name) with
    | error e =>
      rw [put_error hv] at h
      cases h
    | ok v =>
      rw [put_ok hv] at h
      have hrest := ih h
      rw [List.reverse_cons, List.find?_append]
      cases hlast : fields.reverse.find? fun f => f.targetKey == key with
      | some last =>
        rw [hlast] at hrest
        exact hrest
      | none =>
        rw [hlast] at hrest
        by_cases hkey : field.targetKey = key
        · have hfind : [field].find? (fun f => f.targetKey == key) = some field := by simp [hkey]
          rw [Option.none_or, hfind]
          refine ⟨v,hv,?_⟩
          rw [hrest, hkey, Dict.get?_set_self]
        · have hfind : [field].find? (fun f => f.targetKey == key) = none := by simp [hkey]
          rw [Option.none_or, hfind]
          rw [hrest, Dict.get?_set_ne _ _ hkey]

end Loop

section Defaults

variable {builder}

theorem withDefaults_get {payload : Payload} {key : String} {v : PayloadValue}
    (h : Dict.get? (builder.withDefaults payload) key = some v) :
    (∃ w, (key,w) ∈ builder.defaults ∧ v = .value w) ∨ Dict.get? payload key = some v := by
  have hloop : ∀ (defaults : Fields) (payload : Payload),
      Dict.get? (defaults.foldl (fun d entry => Dict.set d entry.1 (PayloadValue.value entry.2))
        payload) key = some v →
      (∃ w, (key,w) ∈ defaults ∧ v = .value w) ∨ Dict.get? payload key = some v := by
    intro defaults
    induction defaults with
    | nil => exact fun payload h => .inr h
    | cons entry defaults ih =>
      intro payload h
      rcases ih _ h with ⟨w,hw,hv⟩ | hget
      · exact .inl ⟨w,List.mem_cons_of_mem _ hw,hv⟩
      · rw [Dict.get?_set] at hget
        split at hget
        · rename_i hkey
          cases hget
          exact .inl ⟨entry.2,by simp [← hkey],rfl⟩
        · exact .inr hget
  exact hloop builder.defaults payload h

theorem withDefaults_get_ne {payload : Payload} {key : String}
    (h : Dict.contains builder.defaults key = false) :
    Dict.get? (builder.withDefaults payload) key = Dict.get? payload key := by
  have hne : ∀ entry ∈ builder.defaults, entry.1 ≠ key := by
    rintro ⟨name,w⟩ hentry rfl
    exact Dict.not_mem_of_get?_eq_none (by simpa [Dict.contains] using h) w hentry
  have hloop : ∀ (defaults : Fields) (payload : Payload), (∀ entry ∈ defaults, entry.1 ≠ key) →
      Dict.get? (defaults.foldl (fun d entry => Dict.set d entry.1 (PayloadValue.value entry.2))
        payload) key = Dict.get? payload key := by
    intro defaults
    induction defaults with
    | nil => exact fun payload _ => rfl
    | cons entry defaults ih =>
      intro payload hne
      obtain ⟨hentry,hrest⟩ := List.forall_mem_cons.mp hne
      rw [List.foldl_cons, ih _ hrest, Dict.get?_set_ne _ _ hentry]
  exact hloop builder.defaults payload hne

end Defaults

/-- A preview never fails. -/
theorem buildPreview_ok (source : Fields) :
    ∃ payload, builder.buildPreview source = .ok payload := by
  have hemit : ∀ payload field, ∃ payload', builder.emit true source payload field = .ok payload' := by
    intro payload field
    unfold emit
    dsimp only
    split
    · exact ⟨_,rfl⟩
    · split
      · exact ⟨_,rfl⟩
      · split
        · exact ⟨_,rfl⟩
        · exact ⟨_,rfl⟩
  have hloop : ∀ (fields : List SinkOutputField) (payload : Payload),
      ∃ payload', fields.foldlM (builder.emit true source) payload = .ok payload' := by
    intro fields
    induction fields with
    | nil => exact fun payload => ⟨payload,rfl⟩
    | cons field fields ih =>
      intro payload
      obtain ⟨next,hnext⟩ := hemit payload field
      rw [List.foldlM_cons, hnext]
      exact ih next
  obtain ⟨payload,hpayload⟩ := hloop builder.fields []
  exact ⟨builder.withDefaults payload,by rw [buildPreview, buildPayload, hpayload]; rfl⟩

section Validated

variable {builder} {row : Fields}

theorem isBlankText_of_isBlank {value : Value} (h : value.isBlank = true) :
    value.isNull = true ∨ isBlankText value = true := by
  cases value with
  | null => exact .inl rfl
  | str s =>
    have hempty : s = "" := by simpa [Value.isBlank] using h
    rw [hempty]
    exact .inr (by decide)
  | _ => cases h

/-- What the check of a row says of a field. -/
theorem of_validateField {field : SinkFieldSpec} (h : validateField row field true = []) :
    ((Fields.read row field.name).isNull = true ∨
      matchesType (Fields.read row field.name) field.type = true) ∧
    (field.required = true → field.nullable = false →
      (Fields.read row field.name).isBlank = false) := by
  unfold validateField at h
  dsimp only at h
  split at h
  · cases h
  · rename_i hfilled
    constructor
    · split at h
      · rename_i htyped
        simpa using htyped
      · cases h
    · intro hrequired hnullable
      by_contra hblank
      rw [Bool.not_eq_false] at hblank
      refine hfilled ?_
      rcases isBlankText_of_isBlank hblank with hempty | hempty
      · simp [hrequired, hnullable, hempty]
      · simp [hrequired, hnullable, hempty]

theorem of_validateSinkRow (h : validateSinkRow row builder.sinkSpec.schema true = [])
    {field : SinkOutputField} (hfield : field ∈ builder.fields) :
    validateField row field.toSinkFieldSpec true = [] := by
  refine List.flatMap_eq_nil_iff.mp h _ (List.mem_map.mpr ⟨field,?_,rfl⟩)
  exact List.mem_of_mem_filter hfield

theorem validateRequired_ok (h : validateSinkRow row builder.sinkSpec.schema true = []) :
    builder.validateRequired row = .ok () := by
  unfold validateRequired
  dsimp only
  rw [List.filter_eq_nil_iff.mpr]
  · rfl
  · intro field hfield hmissing
    simp only [Bool.and_eq_true, Bool.not_eq_true'] at hmissing
    have hfilled := (of_validateField (of_validateSinkRow h hfield)).2 hmissing.1.1.1
      hmissing.1.1.2
    simp [hfilled] at hmissing

theorem call_validated (h : validateSinkRow row builder.sinkSpec.schema true = []) :
    builder.call row = ((builder.written row).foldlM (put row) []).map builder.withDefaults := by
  rw [call, validateRequired_ok h, ← buildPayload_written]
  cases builder.buildPayload false row with
  | ok payload => rfl
  | error e => rfl

theorem written_written (h : validateSinkRow row builder.sinkSpec.schema true = [])
    {field : SinkOutputField} (hfield : field ∈ builder.written row) :
    field.Written (Fields.read row field.name) (field.emission (Fields.read row field.name)) :=
  SinkOutputField.emission_written
    (of_validateField (of_validateSinkRow h (List.mem_of_mem_filter hfield))).1

theorem lastFor_mem {key : String} {field : SinkOutputField}
    (h : builder.lastFor row key = some field) :
    field ∈ builder.written row ∧ field.targetKey = key := by
  constructor
  · exact List.mem_reverse.mp (List.mem_of_find?_eq_some h)
  · simpa using List.find?_some h

end Validated

theorem accepts_of_call (builder : SinkDrivenPayloadBuilder) {row : Fields} {payload : Payload}
    (h : validateSinkRow row builder.sinkSpec.schema true = [])
    (hcall : builder.call row = .ok payload) (hdeclared : builder.Declared row payload) :
    builder.Accepts row := by
  rw [call_validated h] at hcall
  cases hputs : (builder.written row).foldlM (put row) [] with
  | error e =>
    rw [hputs] at hcall
    cases hcall
  | ok puts =>
    rw [hputs] at hcall
    cases hcall
    refine ⟨fun field hfield => ?_,fun key field hlast hnull => ?_⟩
    · obtain ⟨v,hv⟩ := puts_ok hputs field hfield
      have hwritten := written_written h hfield
      rw [hv] at hwritten
      cases hwritten with
      | coerced _ _ hcoercible => exact hcoercible
      | absent _ _ hcoercible => exact hcoercible
    · obtain ⟨hfield,hkey⟩ := lastFor_mem hlast
      have hget := puts_get hputs key
      rw [← lastFor, hlast] at hget
      obtain ⟨v,hv,hget⟩ := hget
      have hfree : Dict.contains builder.defaults key = false := by
        have hkept := (List.mem_filter.mp (List.mem_of_mem_filter hfield)).2
        rw [hkey] at hkept
        simpa using hkept
      rw [← withDefaults_get_ne hfree] at hget
      rcases hdeclared key v hget with ⟨w,hw,_⟩ | ⟨last,hsame,hdeclares⟩
      · exact absurd hw (Dict.not_mem_of_get?_eq_none (by simpa [Dict.contains] using hfree) w)
      · rw [hlast] at hsame
        cases hsame
        have hwritten := written_written h hfield
        rw [hv] at hwritten
        cases hwritten with
        | coerced _ hfilled _ => simp [hfilled] at hnull
        | absent hnullable _ _ => exact hnullable.mp hdeclares

theorem call_of_accepts (builder : SinkDrivenPayloadBuilder) {row : Fields}
    (h : validateSinkRow row builder.sinkSpec.schema true = []) (haccepts : builder.Accepts row) :
    ∃ payload, builder.call row = .ok payload ∧ builder.Declared row payload := by
  obtain ⟨hcoercible,hpresent⟩ := haccepts
  rw [call_validated h]
  have hall : ∀ field ∈ builder.written row,
      ∃ v, field.emission (Fields.read row field.name) = .ok v := by
    intro field hfield
    have hwritten := written_written h hfield
    cases hv : field.emission (Fields.read row field.name) with
    | ok v => exact ⟨v,rfl⟩
    | error e =>
      rw [hv] at hwritten
      cases hwritten with
      | refused hnot => exact absurd (hcoercible field hfield) hnot
  obtain ⟨puts,hputs⟩ := puts_exist [] hall
  refine ⟨builder.withDefaults puts,by rw [hputs]; rfl,fun key v hv => ?_⟩
  rcases withDefaults_get hv with hdefault | hget
  · exact .inl hdefault
  · have hlast := puts_get hputs key
    rw [← lastFor] at hlast
    cases hfield : builder.lastFor row key with
    | none =>
      rw [hfield] at hlast
      rw [hlast] at hget
      cases hget
    | some field =>
      rw [hfield] at hlast
      obtain ⟨v',hv',hget'⟩ := hlast
      rw [hget] at hget'
      cases hget'
      have hwritten := written_written h (lastFor_mem hfield).1
      rw [hv'] at hwritten
      refine .inr ⟨field,rfl,?_⟩
      cases hwritten with
      | coerced hdeclares _ _ => exact hdeclares
      | absent hnullable hnull _ => exact hnullable.mpr (hpresent key field hfield hnull)

/-- A row that passes the check is built into a payload of declared values if and only if the
fields accept its values. -/
theorem validated_row_builds_iff (builder : SinkDrivenPayloadBuilder) (row : Fields)
    (h : validateSinkRow row builder.sinkSpec.schema true = []) :
    (∃ payload, builder.call row = .ok payload ∧ builder.Declared row payload) ↔
      builder.Accepts row :=
  ⟨fun ⟨_,hcall,hdeclared⟩ => builder.accepts_of_call h hcall hdeclared,builder.call_of_accepts h⟩

/-- A builder for one optional field that is not nullable. -/
def single (name : String) (type : SinkType) : SinkDrivenPayloadBuilder where
  sinkSpec := ⟨[⟨⟨name,type,false,false⟩,none,none,nofun⟩],[]⟩
  defaults := []
  conditionalFields := []

/-- An integer in Arabic digits is built into a payload. -/
theorem validated_row_builds_digits : ∃ payload,
    (single "age" .int).call [("age",.str "٤٢")] = .ok payload ∧
      (single "age" .int).Declared [("age",.str "٤٢")] payload := by
  refine (validated_row_builds_iff (single "age" .int) [("age",.str "٤٢")]
    (by decide)).mpr ⟨fun field hfield => ?_,fun key field hlast hnull => ?_⟩
  · obtain rfl := List.mem_singleton.mp hfield
    rintro s heq
    cases heq
    exact ⟨List.all_eq_true.mp (by decide),by decide⟩
  · obtain rfl := List.mem_singleton.mp (lastFor_mem hlast).1
    cases hnull

/-- A superscript digit passes the check of an integer, and a missing boolean that of its field;
the builder raises for both. -/
theorem validated_rows_raise :
    (validateSinkRow [("age",.str "²")] (single "age" .int).sinkSpec.schema true = [] ∧
      (single "age" .int).call [("age",.str "²")] =
        .error ⟨"ValueError","invalid literal for int() with base 10: '²'"⟩) ∧
    validateSinkRow [("active",.null)] (single "active" .bool).sinkSpec.schema true = [] ∧
      (single "active" .bool).call [("active",.null)] =
        .error ⟨"ValueError","Invalid boolean value: None"⟩ := by
  decide

end SinkDrivenPayloadBuilder

end NexusEtl
