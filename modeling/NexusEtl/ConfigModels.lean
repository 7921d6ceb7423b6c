import NexusEtl.Value
import NexusEtl.Library.NestedMaps

/-!
# Models of the configuration

The configuration is a model of sections, which hold fields or further models. A
map of plain values is validated against it: a field takes its own value or its
default, a name that is not declared is refused, and so is a map in the place of
a field.
-/

set_option autoImplicit false

namespace NexusEtl
open NexusEtl.Library

/-- A value that is no map. -/
abbrev PlainValue := {v : Value // ∀ fields, v ≠ .dict fields}

namespace PlainValue

def text (s : String) : PlainValue := ⟨.str s,fun _ h => by cases h⟩

def isNull (v : PlainValue) : Bool := v.val.isNull

end PlainValue

abbrev ConfigMap := Tree.Children String PlainValue

/-- The types of the fields, with their bounds; a `path` may not be blank, and `texts` may be
given as one text with commas. -/
inductive FieldKind where
  | text
  | path
  | flag
  | integer (low high : Option Int)
  | number (positive : Bool) (high : Option Int)
  | choice (names : List String)
  | texts
  deriving DecidableEq, Repr

inductive Schema where
  | field (kind : FieldKind) (default : Value)
  | mapping (keys : List String) (entry : Schema)
  | model (fields : List (String × Schema))

/-- How the plain value of a field is checked and converted, by the type of the field. -/
abbrev FieldTypes := FieldKind → PlainValue → Option Value

/-- A configuration, with the values of its fields. -/
abbrev AppConfig := Tree.Children String Value

namespace Schema

mutual

/-- `model_validate`, of the value that is given for a field or for a model. -/
def validate (types : FieldTypes) :
    Schema → Option (Tree String PlainValue) → Option (Tree String Value)
  | .field _ default, none => some (.leaf default)
  | .field kind _, some (.leaf v) => (types kind v).map .leaf
  | .field _ _, some (.node _) => none
  | .mapping _ _, none => some (.node [])
  | .mapping _ _, some (.leaf _) => none
  | .mapping keys entry, some (.node children) =>
    if (Dict.keys children).all (· ∈ keys) then
      ((keys.filter (Dict.contains children)).mapM fun key =>
        (validate types entry (Dict.get? children key)).map fun t => (key,t)).map .node
    else none
  | .model fields, none => (validateFields types fields []).map .node
  | .model _, some (.leaf _) => none
  | .model fields, some (.node children) =>
    if (Dict.keys children).all (· ∈ fields.map Prod.fst) then
      (validateFields types fields children).map .node
    else none

def validateFields (types : FieldTypes) : List (String × Schema) → ConfigMap → Option AppConfig
  | [], _ => some []
  | (name,schema)::rest, children => do
    let t ← validate types schema (Dict.get? children name)
    let config ← validateFields types rest children
    return (name,t)::config

end

mutual

def pathsOf : Schema → List (List String)
  | .field _ _ => [[]]
  | .mapping _ _ => [[]]
  | .model fields => fieldPaths fields

/-- The paths of the fields; a mapping is one field. -/
def fieldPaths : List (String × Schema) → List (List String)
  | [] => []
  | (name,schema)::rest => (pathsOf schema).map (name::·) ++ fieldPaths rest

end

mutual

def plainPathsOf : Schema → List (List String)
  | .field _ _ => [[]]
  | .mapping _ _ => []
  | .model fields => plainPaths fields

/-- The paths of the fields that hold a plain value. -/
def plainPaths : List (String × Schema) → List (List String)
  | [] => []
  | (name,schema)::rest => (plainPathsOf schema).map (name::·) ++ plainPaths rest

end

/-- The bytes of a text; the byte 46 is the dot. -/
def textBytes (s : String) : List UInt8 := s.toByteArray.data.toList

/-- Whether a text is a name: not empty and without a dot. -/
def isName (name : String) : Bool := name ≠ "" && !(textBytes name).contains 46

mutual

def wellNamedSchema : Schema → Bool
  | .field _ _ => true
  | .mapping _ _ => true
  | .model fields => wellNamed fields

/-- Whether the fields have names, each of them once in its model. -/
def wellNamed : List (String × Schema) → Bool
  | [] => true
  | (name,schema)::rest =>
    isName name && decide (name ∉ rest.map Prod.fst) && wellNamedSchema schema && wellNamed rest

end

/-- Induction over the fields of a model: its entries in turn, and the fields of a model inside. -/
@[elab_as_elim]
theorem fields_induction {motive : List (String × Schema) → Prop} (nil : motive [])
    (single : ∀ name schema rest, (∀ inner, schema ≠ .model inner) → motive rest →
      motive ((name,schema)::rest))
    (model : ∀ name inner rest, motive inner → motive rest →
      motive ((name,.model inner)::rest)) : ∀ fields, motive fields
  | [] => nil
  | (name,.field kind default)::rest =>
    single name (.field kind default) rest nofun (fields_induction nil single model rest)
  | (name,.mapping keys entry)::rest =>
    single name (.mapping keys entry) rest nofun (fields_induction nil single model rest)
  | (name,.model inner)::rest => model name inner rest (fields_induction nil single model inner)
      (fields_induction nil single model rest)

/-- What is no model is one field. -/
theorem fieldPaths_single {name : String} {schema : Schema} (rest : List (String × Schema))
    (h : ∀ inner, schema ≠ .model inner) :
    fieldPaths ((name,schema)::rest) = [name]::fieldPaths rest := by
  cases schema with
  | field kind default => rfl
  | mapping keys entry => rfl
  | model inner => exact absurd rfl (h inner)

/-! ## What a validation says about a map -/

section Validation

variable {types : FieldTypes} {fields : List (String × Schema)}

theorem validateFields_cons {name : String} {schema : Schema} {children : ConfigMap}
    {config : AppConfig} (h : validateFields types ((name,schema)::fields) children = some config) :
    ∃ t rest, validate types schema (Dict.get? children name) = some t ∧
      validateFields types fields children = some rest ∧ config = (name,t)::rest := by
  rw [validateFields] at h
  obtain ⟨t,ht,h⟩ := Option.bind_eq_some_iff.mp h
  obtain ⟨rest,hrest,h⟩ := Option.bind_eq_some_iff.mp h
  exact ⟨t,rest,ht,hrest,(Option.some.inj h).symm⟩

theorem validate_model_children {children : ConfigMap} {t : Tree String Value}
    (h : validate types (.model fields) (some (.node children)) = some t) :
    (∀ key ∈ Dict.keys children, key ∈ fields.map Prod.fst) ∧
      ∃ config, validateFields types fields children = some config ∧ t = .node config := by
  rw [validate] at h
  split at h
  · next hkeys =>
    obtain ⟨config,hconfig,rfl⟩ := Option.map_eq_some_iff.mp h
    exact ⟨fun key hkey => of_decide_eq_true (List.all_eq_true.mp hkeys key hkey),
      config,hconfig,rfl⟩
  · cases h

/-- A model is validated from the map under its name, empty where there is none. -/
theorem validate_model {name : String} {children : ConfigMap} {t : Tree String Value}
    (h : validate types (.model fields) (Dict.get? children name) = some t) :
    ∃ config, validateFields types fields (Tree.under children name) = some config ∧
      t = .node config := by
  rw [Tree.under]
  cases hget : Dict.get? children name with
  | none =>
    rw [hget, validate] at h
    obtain ⟨config,hconfig,rfl⟩ := Option.map_eq_some_iff.mp h
    exact ⟨config,hconfig,rfl⟩
  | some given =>
    cases given with
    | leaf v =>
      rw [hget, validate] at h
      cases h
    | node found =>
      rw [hget] at h
      exact (validate_model_children h).2

/-- A model with something inside is validated from a map with the names of its fields. -/
theorem validate_model_inside {name k : String} {children : ConfigMap} {path : List String}
    {t : Tree String Value}
    (h : validate types (.model fields) (Dict.get? children name) = some t)
    (hlook : Tree.look children (name::k::path) ≠ none) :
    ∃ found, Dict.get? children name = some (.node found) ∧
      (∃ config, validateFields types fields found = some config) ∧
      ∀ key ∈ Dict.keys found, key ∈ fields.map Prod.fst := by
  rw [Tree.look_cons] at hlook
  cases hget : Dict.get? children name with
  | none => simp [hget] at hlook
  | some given =>
    cases given with
    | leaf v => simp [hget] at hlook
    | node found =>
      rw [hget] at h
      obtain ⟨hkeys,config,hconfig,-⟩ := validate_model_children h
      exact ⟨found,rfl,⟨config,hconfig⟩,hkeys⟩

/-- A plain field is validated from a plain value or from nothing. -/
theorem validate_field {kind : FieldKind} {default : Value} {name : String} {children : ConfigMap}
    {t : Tree String Value}
    (h : validate types (.field kind default) (Dict.get? children name) = some t) :
    Tree.look children [name] ≠ some none ∧ ∃ v, t = .leaf v := by
  rw [Tree.look_cons]
  cases hget : Dict.get? children name with
  | none =>
    rw [hget, validate] at h
    exact ⟨by simp,default,(Option.some.inj h).symm⟩
  | some given =>
    cases given with
    | leaf v =>
      rw [hget, validate] at h
      obtain ⟨loaded,-,rfl⟩ := Option.map_eq_some_iff.mp h
      exact ⟨by simp,loaded,rfl⟩
    | node found =>
      rw [hget, validate] at h
      cases h

theorem fieldPaths_cons {path : List String} (h : path ∈ fieldPaths fields) :
    ∃ name rest, path = name::rest ∧ name ∈ fields.map Prod.fst := by
  induction fields with
  | nil => cases h
  | cons entry rest ih =>
    rw [fieldPaths] at h
    rcases List.mem_append.mp h with h | h
    · obtain ⟨below,-,rfl⟩ := List.mem_map.mp h
      exact ⟨entry.1,below,rfl,List.mem_cons_self⟩
    · obtain ⟨first,below,rfl,hmem⟩ := ih h
      exact ⟨first,below,rfl,.tail _ hmem⟩

theorem plainPaths_sublist : List.Sublist (plainPaths fields) (fieldPaths fields) := by
  induction fields using fields_induction with
  | nil => exact .slnil
  | single name schema rest hsingle ih =>
    cases schema with
    | field kind default => exact ih.cons_cons [name]
    | mapping keys entry => exact ih.cons [name]
    | model inner => exact absurd rfl (hsingle inner)
  | model name inner rest ihinner ihrest => exact (ihinner.map (name::·)).append ihrest

/-- What the names of the fields say about the first of them. -/
theorem wellNamed_cons {name : String} {schema : Schema}
    (h : wellNamed ((name,schema)::fields) = true) :
    isName name = true ∧ name ∉ fields.map Prod.fst ∧ wellNamedSchema schema = true ∧
      wellNamed fields = true := by
  simpa only [wellNamed, Bool.and_eq_true, decide_eq_true_eq, and_assoc] using h

/-- The paths of the fields are made of names. -/
theorem isName_of_mem_fieldPaths (hnames : wellNamed fields = true) {path : List String}
    (hpath : path ∈ fieldPaths fields) : ∀ k ∈ path, isName k = true := by
  induction fields using fields_induction generalizing path with
  | nil => cases hpath
  | single name schema rest hsingle ih =>
    obtain ⟨hname,-,-,hnames⟩ := wellNamed_cons hnames
    rw [fieldPaths_single rest hsingle] at hpath
    rcases List.mem_cons.mp hpath with rfl | hpath
    · exact List.forall_mem_singleton.mpr hname
    · exact ih hnames hpath
  | model name inner rest ihinner ihrest =>
    obtain ⟨hname,-,hinner,hnames⟩ := wellNamed_cons hnames
    rcases List.mem_append.mp hpath with hpath | hpath
    · obtain ⟨below,hbelow,rfl⟩ := List.mem_map.mp hpath
      exact List.forall_mem_cons.mpr ⟨hname,ihinner hinner hbelow⟩
    · exact ihrest hnames hpath

/-- No field stands inside another one. -/
theorem eq_of_prefix_fieldPaths (hnames : wellNamed fields = true) {path other : List String}
    (hpath : path ∈ fieldPaths fields) (hother : other ∈ fieldPaths fields)
    (h : path <+: other) : path = other := by
  induction fields using fields_induction generalizing path other with
  | nil => cases hpath
  | single name schema rest hsingle ih =>
    obtain ⟨-,hnew,-,hnames⟩ := wellNamed_cons hnames
    rw [fieldPaths_single rest hsingle] at hpath hother
    rcases List.mem_cons.mp hpath with rfl | hpath
    · rcases List.mem_cons.mp hother with rfl | hother
      · rfl
      · obtain ⟨first,below,rfl,hmem⟩ := fieldPaths_cons hother
        exact absurd ((List.cons_prefix_cons.mp h).1 ▸ hmem) hnew
    · rcases List.mem_cons.mp hother with rfl | hother
      · obtain ⟨first,below,rfl,hmem⟩ := fieldPaths_cons hpath
        exact absurd ((List.cons_prefix_cons.mp h).1 ▸ hmem) hnew
      · exact ih hnames hpath hother h
  | model name inner rest ihinner ihrest =>
    obtain ⟨-,hnew,hinner,hnames⟩ := wellNamed_cons hnames
    rcases List.mem_append.mp hpath with hpath | hpath
    · obtain ⟨below,hbelow,rfl⟩ := List.mem_map.mp hpath
      rcases List.mem_append.mp hother with hother | hother
      · obtain ⟨below',hbelow',rfl⟩ := List.mem_map.mp hother
        rw [ihinner hinner hbelow hbelow' (List.cons_prefix_cons.mp h).2]
      · obtain ⟨first,below',rfl,hmem⟩ := fieldPaths_cons hother
        exact absurd ((List.cons_prefix_cons.mp h).1 ▸ hmem) hnew
    · rcases List.mem_append.mp hother with hother | hother
      · obtain ⟨below',-,rfl⟩ := List.mem_map.mp hother
        obtain ⟨first,below,rfl,hmem⟩ := fieldPaths_cons hpath
        exact absurd ((List.cons_prefix_cons.mp h).1 ▸ hmem) hnew
      · exact ihrest hnames hpath hother h

/-- What a valid map holds stands at a path of names or inside a field. -/
theorem isName_or_inside {children : ConfigMap} {config : AppConfig}
    (hnames : wellNamed fields = true)
    (h : validateFields types fields children = some config) {k : String} {path : List String}
    (hk : k ∈ fields.map Prod.fst) (hlook : Tree.look children (k::path) ≠ none) :
    (∀ x ∈ k::path, isName x = true) ∨
      ∃ f ∈ fieldPaths fields, f <+: k::path ∧ f ≠ k::path := by
  induction fields using fields_induction generalizing children config k path with
  | nil => cases hk
  | single name schema rest hsingle ih =>
    obtain ⟨t,config,ht,hrest,rfl⟩ := validateFields_cons h
    obtain ⟨hname,hnew,-,hnames⟩ := wellNamed_cons hnames
    rw [fieldPaths_single rest hsingle]
    rcases List.mem_cons.mp hk with rfl | hk
    · cases path with
      | nil => exact .inl (List.forall_mem_singleton.mpr hname)
      | cons k' path =>
        exact .inr ⟨[k],List.mem_cons_self,List.cons_prefix_cons.mpr ⟨rfl,List.nil_prefix⟩,
          by simp⟩
    · exact (ih hnames hrest hk hlook).imp_right fun ⟨f,hf,hinside⟩ => ⟨f,.tail _ hf,hinside⟩
  | model name inner rest ihinner ihrest =>
    obtain ⟨t,config,ht,hrest,rfl⟩ := validateFields_cons h
    obtain ⟨hname,hnew,hinner,hnames⟩ := wellNamed_cons hnames
    rcases List.mem_cons.mp hk with rfl | hk
    · cases path with
      | nil => exact .inl (List.forall_mem_singleton.mpr hname)
      | cons k' path =>
        obtain ⟨found,hfound,⟨config,hconfig⟩,hkeys⟩ := validate_model_inside ht hlook
        rw [Tree.look_cons, hfound] at hlook
        refine (ihinner hinner hconfig (hkeys k' (Tree.key_of_look hlook)) hlook).imp ?_ ?_
        · exact fun h => List.forall_mem_cons.mpr ⟨hname,h⟩
        · rintro ⟨f,hf,hpre,hne⟩
          refine ⟨k::f,List.mem_append_left _ (List.mem_map_of_mem hf),
            List.cons_prefix_cons.mpr ⟨rfl,hpre⟩,fun heq => hne (List.cons.inj heq).2⟩
    · exact (ihrest hnames hrest hk hlook).imp_right fun ⟨f,hf,hinside⟩ =>
        ⟨f,List.mem_append_right _ hf,hinside⟩

/-- A field that is given no map is loaded by its own value alone. -/
theorem look_validate_congr {children others : ConfigMap} {config config' : AppConfig}
    (hnames : wellNamed fields = true)
    (h : validateFields types fields children = some config)
    (h' : validateFields types fields others = some config') {path : List String}
    (hpath : path ∈ fieldPaths fields) (hlook : Tree.look children path = Tree.look others path)
    (hplain : Tree.look children path ≠ some none) :
    Tree.look config path = Tree.look config' path := by
  induction fields using fields_induction generalizing children others config config' path with
  | nil => cases hpath
  | single name schema rest hsingle ih =>
    obtain ⟨t,config,ht,hrest,rfl⟩ := validateFields_cons h
    obtain ⟨t',config',ht',hrest',rfl⟩ := validateFields_cons h'
    obtain ⟨-,hnew,-,hnames⟩ := wellNamed_cons hnames
    rw [fieldPaths_single rest hsingle] at hpath
    rcases List.mem_cons.mp hpath with rfl | hpath
    · rw [Tree.get?_congr hlook hplain] at ht
      cases ht.symm.trans ht'
      rw [Tree.look_cons, Tree.look_cons, Dict.get?, Dict.get?, if_pos rfl, if_pos rfl]
    · obtain ⟨first,below,rfl,hmem⟩ := fieldPaths_cons hpath
      have hne : name ≠ first := fun heq => hnew (heq ▸ hmem)
      rw [Tree.look_cons_rest hne, Tree.look_cons_rest hne]
      exact ih hnames hrest hrest' hpath hlook hplain
  | model name inner rest ihinner ihrest =>
    obtain ⟨t,config,ht,hrest,rfl⟩ := validateFields_cons h
    obtain ⟨t',config',ht',hrest',rfl⟩ := validateFields_cons h'
    obtain ⟨-,hnew,hinner,hnames⟩ := wellNamed_cons hnames
    rcases List.mem_append.mp hpath with hpath | hpath
    · obtain ⟨below,hbelow,rfl⟩ := List.mem_map.mp hpath
      obtain ⟨found,hfound,rfl⟩ := validate_model ht
      obtain ⟨found',hfound',rfl⟩ := validate_model ht'
      obtain ⟨first,tail,hcons,-⟩ := fieldPaths_cons hbelow
      have hne : below ≠ [] := hcons ▸ List.cons_ne_nil first tail
      rw [Tree.look_cons_self, Tree.look_cons_self]
      rw [← Tree.look_under _ _ hne, ← Tree.look_under _ _ hne] at hlook
      rw [← Tree.look_under _ _ hne] at hplain
      exact ihinner hinner hfound hfound' hbelow hlook hplain
    · obtain ⟨first,below,rfl,hmem⟩ := fieldPaths_cons hpath
      have hne : name ≠ first := fun heq => hnew (heq ▸ hmem)
      rw [Tree.look_cons_rest hne, Tree.look_cons_rest hne]
      exact ihrest hnames hrest hrest' hpath hlook hplain

/-- A plain field is given no map, and has a value after the validation. -/
theorem look_plain_field {children : ConfigMap} {config : AppConfig}
    (hnames : wellNamed fields = true)
    (h : validateFields types fields children = some config) {path : List String}
    (hpath : path ∈ plainPaths fields) :
    Tree.look children path ≠ some none ∧ ∃ v, Tree.look config path = some (some v) := by
  induction fields using fields_induction generalizing children config path with
  | nil => cases hpath
  | single name schema rest hsingle ih =>
    obtain ⟨t,config,ht,hrest,rfl⟩ := validateFields_cons h
    obtain ⟨-,hnew,-,hnames⟩ := wellNamed_cons hnames
    rcases List.mem_append.mp hpath with hpath | hpath
    · cases schema with
      | field kind default =>
        obtain rfl : path = [name] := by simpa [plainPathsOf] using hpath
        obtain ⟨hgiven,v,rfl⟩ := validate_field ht
        exact ⟨hgiven,v,by rw [Tree.look_cons, Dict.get?, if_pos rfl]; rfl⟩
      | mapping keys entry => cases hpath
      | model inner => exact absurd rfl (hsingle inner)
    · obtain ⟨first,below,rfl,hmem⟩ := fieldPaths_cons (plainPaths_sublist.mem hpath)
      have hne : name ≠ first := fun heq => hnew (heq ▸ hmem)
      rw [Tree.look_cons_rest hne]
      exact ih hnames hrest hpath
  | model name inner rest ihinner ihrest =>
    obtain ⟨t,config,ht,hrest,rfl⟩ := validateFields_cons h
    obtain ⟨-,hnew,hinner,hnames⟩ := wellNamed_cons hnames
    rcases List.mem_append.mp hpath with hpath | hpath
    · obtain ⟨below,hbelow,rfl⟩ := List.mem_map.mp hpath
      obtain ⟨found,hfound,rfl⟩ := validate_model ht
      obtain ⟨first,tail,hcons,-⟩ := fieldPaths_cons (plainPaths_sublist.mem hbelow)
      rw [Tree.look_cons_self, ← Tree.look_under _ _ (hcons ▸ List.cons_ne_nil first tail)]
      exact ihinner hinner hfound hbelow
    · obtain ⟨first,below,rfl,hmem⟩ := fieldPaths_cons (plainPaths_sublist.mem hpath)
      have hne : name ≠ first := fun heq => hnew (heq ▸ hmem)
      rw [Tree.look_cons_rest hne]
      exact ihrest hnames hrest hpath

end Validation

/-! ## Validation and the order of the keys -/

theorem all_keys_same {children others : ConfigMap} (h : Tree.Same children others)
    (names : List String) :
    (Dict.keys children).all (· ∈ names) = (Dict.keys others).all (· ∈ names) := by
  rw [Bool.eq_iff_iff, List.all_eq_true, List.all_eq_true]
  exact forall_congr' fun key => imp_congr_left h.keys

mutual

/-- Maps that hold the same are loaded alike. -/
theorem validate_same (types : FieldTypes) : ∀ (schema : Schema)
    {given given' : Option (Tree String PlainValue)}, Tree.SameEntry given given' →
      validate types schema given = validate types schema given'
  | .field kind default, given, given', h => by
    rcases given with _ | _ | _ <;> rcases given' with _ | _ | _ <;>
      simp_all [Tree.SameEntry, validate]
  | .mapping keys entry, none, none, _ => rfl
  | .mapping keys entry, some (.leaf v), some (.leaf w), _ => by rw [validate, validate]
  | .mapping keys entry, some (.node children), some (.node others), h => by
    have hentry := fun key => validate_same types entry (h.entry key)
    rw [validate, validate, all_keys_same h, Tree.Same.contains h]
    simp only [hentry]
  | .model fields, none, none, _ => rfl
  | .model fields, some (.leaf v), some (.leaf w), _ => by rw [validate, validate]
  | .model fields, some (.node children), some (.node others), h => by
    rw [validate, validate, all_keys_same h, validateFields_same types fields h]

theorem validateFields_same (types : FieldTypes) : ∀ (fields : List (String × Schema))
    {children others : ConfigMap}, Tree.Same children others →
      validateFields types fields children = validateFields types fields others
  | [], _, _, _ => rfl
  | (name,schema)::rest, children, others, h => by
    rw [validateFields, validateFields, validate_same types schema (h.entry name),
      validateFields_same types rest h]

end

end Schema

/-! ## The sections -/

namespace AppConfig
open Schema

def text (name : String) (default : Value) : String × Schema := (name,.field .text default)

def path (name : String) (default : Value) : String × Schema := (name,.field .path default)

def flag (name : String) (default : Bool) : String × Schema := (name,.field .flag (.bool default))

def integer (name : String) (default : Value) (low high : Option Int) : String × Schema :=
  (name,.field (.integer low high) default)

def number (name : String) (default : Rat) (positive : Bool) (high : Option Int) :
    String × Schema := (name,.field (.number positive high) (.float default))

def choice (name default : String) (names : List String) : String × Schema :=
  (name,.field (.choice names) (.str default))

def nullableChoice (name : String) (names : List String) : String × Schema :=
  (name,.field (.choice names) .null)

def logLevels : List String := ["DEBUG","INFO","WARNING","ERROR","CRITICAL"]

def serviceComponents : List String := ["extractor","mapper","normalizer","enricher","matcher",
  "resolver","planner","applier","cache","vault","topology","observability"]

def journalModes : List String := ["WAL","DELETE","MEMORY","TRUNCATE","PERSIST","OFF"]

def transactionModes : List String := ["deferred","immediate","exclusive"]

def apiConfig : Schema := .model [text "host" .null,
  integer "port" .null (some 1) (some 65535), text "username" .null, text "password" .null,
  flag "tls_skip_verify" false, text "ca_file" .null, number "timeout_seconds" 20 true none,
  integer "retries" (.int 3) (some 0) (some 10),
  number "retry_backoff_seconds" (1 / 2) false (some 60),
  integer "resource_exists_retries" (.int 3) (some 0) none]

def runtimeConfig : Schema := .model [path "runtime_root" (.str "."),
  path "config_root" (.str "./etc"), path "datasets_root" (.str "./datasets"),
  path "dictionary_specs_root" (.str "./etc/dictionaries"),
  path "dictionary_data_root" (.str "./dictionaries"),
  path "source_data_root" (.str "./etc/source-data"),
  path "source_projection_root" (.str "./etc/source-projection"),
  path "target_projection_root" (.str "./etc/target-projection")]

def pathsConfig : Schema := .model [path "cache_dir" (.str "var/cache"),
  path "log_dir" (.str "var/logs"), path "report_dir" (.str "reports"),
  path "plans_dir" (.str "var/plans")]

def loggingConfig : Schema := .model [choice "level" "INFO" logLevels,
  ("components",.mapping serviceComponents (.model [choice "level" "INFO" logLevels])),
  ("redaction",.model [flag "enabled" true,
    ("keys",.field .texts
      (.list (["password","token","authorization","api_key","secret"].map .str)))]),
  ("sinks",.model [
    ("file",.model [flag "enabled" true, choice "format" "text" ["text","json"],
      choice "rotation" "hybrid" ["daily","size","hybrid"],
      integer "max_bytes" (.int 104857600) (some 1) none,
      integer "retention_days" (.int 30) (some 0) none,
      integer "retention_backups" (.int 10) (some 0) none]),
    ("console",.model [flag "enabled" true, choice "stream" "stderr" ["stderr","stdout"],
      choice "format" "json" ["json","text"]])])]

def reportingConfig : Schema := .model [choice "format" "json" ["json","text"],
  choice "policy_profile" "standard" ["minimal","standard","debug"],
  integer "items_limit" (.int 200) (some 1) none, flag "include_skipped" true,
  integer "retention_days" (.int 30) (some 0) none]

def observabilityConfig : Schema := .model [flag "partition_by_component" true,
  choice "clock" "utc" ["utc","local"], ("logging",loggingConfig), ("reporting",reportingConfig),
  ("plans",.model [integer "retention_days" (.int 30) (some 0) none]),
  ("diagnostics",.model [flag "strict" false]),
  ("ledger",.model [flag "enabled" true, choice "backend" "jsonl" ["jsonl","sqlite"]])]

def datasetConfig : Schema := .model [text "dataset_name" (.str "employees"),
  path "registry_path" .null, flag "include_deleted" false]

def executionConfig : Schema := .model [flag "stop_on_first_error" false,
  integer "max_actions" .null (some 1) none, flag "dry_run" false]

def refreshConfig : Schema := .model [integer "page_size" (.int 200) (some 1) none,
  integer "max_pages" .null (some 1) none]

def matchingRuntimeConfig : Schema := .model [
  integer "match_batch_size" (.int 500) (some 1) none,
  integer "match_flush_interval_ms" (.int 500) (some 1) none]

def resolverConfig : Schema := .model [integer "pending_ttl_seconds" (.int 120) (some 1) none,
  integer "pending_max_attempts" (.int 5) (some 0) none,
  integer "pending_sweep_interval_seconds" (.int 60) (some 1) none,
  choice "pending_on_expire" "error" ["error","report_only","skip"],
  flag "pending_allow_partial" false, integer "pending_retention_days" (.int 14) (some 0) none,
  integer "resolve_batch_size" (.int 500) (some 1) none,
  integer "resolve_flush_interval_ms" (.int 500) (some 1) none]

def sqliteConfig : Schema := .model [choice "journal_mode" "WAL" journalModes,
  choice "synchronous" "NORMAL" ["OFF","NORMAL","FULL","EXTRA"],
  integer "busy_timeout_ms" (.int 5000) (some 0) none,
  integer "wal_autocheckpoint" (.int 1000) (some 0) none, text "vault_db_path" .null,
  choice "vault_transaction_mode" "immediate" transactionModes,
  nullableChoice "vault_journal_mode" journalModes,
  integer "vault_busy_timeout_ms" .null (some 0) none,
  integer "vault_schema_retry_count" (.int 2) (some 0) (some 10), text "cache_db_path" .null,
  choice "cache_transaction_mode" "deferred" transactionModes,
  nullableChoice "cache_journal_mode" journalModes,
  integer "cache_busy_timeout_ms" .null (some 0) none, text "identity_db_path" .null]

def dictionaryConfig : Schema := .model [choice "load_strategy" "eager" ["eager","lazy"],
  text "fingerprint_salt" (.str "dictionary-runtime-v1"),
  text "fingerprint_salt_version" (.str "v1"),
  integer "lookup_hit_sample_percent" (.int 1) (some 0) (some 100),
  integer "lookup_miss_sample_percent" (.int 10) (some 0) (some 100)]

def vaultRolloutConfig : Schema := .model [
  choice "mode" "full" ["full","canary","staging_dry_run","off"],
  integer "canary_percent" (.int 100) (some 0) (some 100),
  ("canary_datasets",.field .texts (.list [])), text "canary_seed" (.str "vault-rollout-v1"),
  number "row_failure_rate_threshold_pct" 5 false (some 100),
  number "error_rate_threshold_pct" 5 false (some 100),
  number "latency_regression_threshold_pct" 15 false (some 100),
  number "busy_timeout_rate_threshold_pct" 0 false (some 100),
  number "schema_changed_rate_threshold_pct" 0 false (some 100)]

def vaultManagementConfig : Schema := .model [
  flag "require_admin_password_for_manual_ops" true, text "admin_password_hash_file" .null,
  text "admin_password_env_var" (.str "ANKEY_VAULT_ADMIN_PASSWORD")]

/-- The sections of `AppConfig`. -/
def fields : List (String × Schema) := [("api",apiConfig), ("runtime",runtimeConfig),
  ("paths",pathsConfig), ("observability",observabilityConfig), ("dataset",datasetConfig),
  ("execution",executionConfig), ("refresh",refreshConfig),
  ("matching_runtime",matchingRuntimeConfig), ("resolver",resolverConfig),
  ("sqlite",sqliteConfig), ("dictionary",dictionaryConfig), ("vault_rollout",vaultRolloutConfig),
  ("vault_management",vaultManagementConfig)]

theorem wellNamed_fields : Schema.wellNamed fields = true := by decide

end AppConfig
end NexusEtl
