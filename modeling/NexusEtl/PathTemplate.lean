import NexusEtl.Gateway
import NexusEtl.Library.Segments

/-!
# The path of a request

The text of a parameter is put into the path as it is. What shape the path then
has depends on the values alone, for no character of a value is quoted.
-/

set_option autoImplicit false

namespace NexusEtl
open NexusEtl.Library

/-- A template character by character, with a hole for each parameter. -/
inductive PathToken
  | char (c : Char)
  | hole (name : String)
  deriving DecidableEq, Repr

def PathToken.isHole : PathToken → Bool
  | .char _ => false
  | .hole _ => true

/-- The names of the holes, as they come. -/
def PathToken.holes (tokens : List PathToken) : List String :=
  tokens.filterMap fun
    | .char _ => none
    | .hole name => some name

theorem PathToken.mem_holes {tokens : List PathToken} {name : String} :
    name ∈ PathToken.holes tokens ↔ .hole name ∈ tokens := by
  unfold PathToken.holes
  rw [List.mem_filterMap]
  constructor
  · intro h
    obtain ⟨token,htoken,hname⟩ := h
    cases token with
    | char c => cases hname
    | hole other =>
      cases hname
      exact htoken
  · intro h
    exact ⟨_,h,rfl⟩

def PathPart.tokens : PathPart → List PathToken
  | .text s => s.toList.map .char
  | .param name => [.hole name]

/-- `[a-zA-Z_][a-zA-Z0-9_]*` -/
def isParamName : List Char → Bool
  | [] => false
  | c :: cs => (c.isAlpha || c == '_') && cs.all fun d => d.isAlphanum || d == '_'

/-- The names that the pattern finds in a template, whatever stands before the brace. -/
def requiredParams : List Char → List String
  | [] => []
  | c :: rest =>
    let name := rest.takeWhile (· != '}')
    if c = '{' ∧ isParamName name ∧ name.length < rest.length then
      String.ofList name :: requiredParams rest
    else requiredParams rest

/-- How `str.format` reads a template whose placeholders are names: a doubled brace is a brace.
`name` is what is read of a placeholder. -/
def scanTemplate : Option (List Char) → List Char → Option (List PathToken)
  | none, [] => some []
  | none, '{' :: '{' :: rest => (scanTemplate none rest).map (.char '{' :: ·)
  | none, '}' :: '}' :: rest => (scanTemplate none rest).map (.char '}' :: ·)
  | none, '{' :: rest => scanTemplate (some []) rest
  | none, '}' :: _ => none
  | none, c :: rest => (scanTemplate none rest).map (.char c :: ·)
  | some _, [] => none
  | some name, '}' :: rest =>
    if isParamName name then
      (scanTemplate none rest).map (.hole (String.ofList name) :: ·)
    else none
  | some name, c :: rest => scanTemplate (some (name ++ [c])) rest

/-- A template and the way it is read. -/
structure PathTemplate where
  text : String
  tokens : List PathToken
  scanned : scanTemplate none text.toList = some tokens

/-- The text that a parameter map gives to a name. -/
def paramText (params : Fields) (name : String) : List Char :=
  (Fields.read params name).pyStr.toList

def fill (params : Fields) : PathToken → List Char
  | .char c => [c]
  | .hole name => paramText params name

namespace PathTemplate

variable (t : PathTemplate)

def required : List String := requiredParams t.text.toList

/-- `_render_path_template` -/
def render (operationAlias : String) (params : Option Fields) : Except PyException String :=
  let given := params.getD []
  let missing := t.required.filter fun name => !Dict.contains given name
  if missing = [] then
    match (PathToken.holes t.tokens).find? fun name => !Dict.contains given name with
    | none => .ok (String.ofList (t.tokens.flatMap (fill given)))
    | some name => .error ⟨"ValueError","operation " ++ Value.strRepr operationAlias ++
      " missing path param: " ++ Value.strRepr name⟩
  else .error ⟨"ValueError","operation " ++ Value.strRepr operationAlias ++
    " missing path params: " ++ Text.join ", " (missing.mergeSort fun a b => decide (a ≤ b))⟩

variable {t}

theorem path_of_render {operationAlias path : String} {params : Option Fields}
    (h : t.render operationAlias params = .ok path) :
    path.toList = t.tokens.flatMap (fill (params.getD [])) := by
  unfold render at h
  dsimp only at h
  split at h
  · split at h
    · cases h
      exact String.toList_ofList
    · cases h
  · cases h

end PathTemplate

namespace PathToken

/-- The segments of a template. -/
def segments (tokens : List PathToken) : List (List PathToken) := tokens.splitOn (.char '/')

/-- The path has the segments of the template with their holes filled, no segment with a hole is
a way up, and there is no other query or fragment than in the template. -/
structure KeepsShape (tokens : List PathToken) (params : Fields) (path : String) : Prop where
  segments : path.toList.splitOn '/' =
    (segments tokens).map fun segment => segment.flatMap (fill params)
  noWayUp : ∀ segment ∈ PathToken.segments tokens, segment.any isHole = true →
    segment.flatMap (fill params) ≠ ['.', '.']
  noQuery : path.toList.count '?' = tokens.count (.char '?')
  noFragment : path.toList.count '#' = tokens.count (.char '#')

/-- No value that the template takes has one of the characters. -/
def FreeOf (tokens : List PathToken) (params : Fields) (chars : List Char) : Prop :=
  ∀ name, hole name ∈ tokens → ∀ c ∈ chars, c ∉ paramText params name

/-- No segment of the template has two holes. -/
def OneHoleEach (tokens : List PathToken) : Prop :=
  ∀ segment ∈ segments tokens, (segment.filter isHole).length ≤ 1

/-- All holes of the template have one name. -/
def OneName (tokens : List PathToken) : Prop :=
  ∀ name name', hole name ∈ tokens → hole name' ∈ tokens → name = name'

instance (tokens : List PathToken) (params : Fields) (chars : List Char) :
    Decidable (FreeOf tokens params chars) :=
  decidable_of_iff ((holes tokens).all (fun name =>
      chars.all fun c => !(paramText params name).contains c) = true)
    (by simp [FreeOf, mem_holes])

instance (tokens : List PathToken) : Decidable (OneHoleEach tokens) :=
  inferInstanceAs (Decidable (∀ segment ∈ segments tokens, (segment.filter isHole).length ≤ 1))

variable {tokens : List PathToken} {params params' : Fields}

/-- Filling adds a character exactly when a value has it. -/
theorem count_flatMap_fill_iff (c : Char) :
    (tokens.flatMap (fill params)).count c = tokens.count (.char c) ↔
      ∀ name, hole name ∈ tokens → c ∉ paramText params name := by
  have hle (ts : List PathToken) : ts.count (.char c) ≤ (ts.flatMap (fill params)).count c := by
    induction ts with
    | nil => exact Nat.le_refl _
    | cons t ts ih =>
      rw [List.flatMap_cons, List.count_append]
      cases t with
      | char d => by_cases hd : d = c <;> simp [fill, hd] <;> omega
      | hole name =>
        simp
        omega
  induction tokens with
  | nil => simp
  | cons token tokens ih =>
    rw [List.flatMap_cons, List.count_append]
    have hrest := hle tokens
    cases token with
    | char d =>
      have hsame : (fill params (.char d)).count c = if d = c then 1 else 0 := by
        simp [fill, List.count_cons]
      rw [hsame, List.count_cons]
      simp only [List.mem_cons, reduceCtorEq, false_or, beq_iff_eq, PathToken.char.injEq]
      refine Iff.trans ?_ ih
      constructor <;> intro h <;> omega
    | hole other =>
      have hcount : List.count c (fill params (.hole other)) = 0 ↔
          c ∉ paramText params other := List.count_eq_zero
      rw [List.count_cons]
      simp only [List.mem_cons, PathToken.hole.injEq, reduceCtorEq, beq_iff_eq, if_false]
      constructor
      · intro h name hname
        rcases hname with rfl | hname
        · exact hcount.mp (by omega)
        · exact ih.mp (by omega) name hname
      · intro h
        have hzero := hcount.mpr (h other (.inl rfl))
        have hsame := ih.mpr fun name hname => h name (.inr hname)
        omega

/-- The path is cut where the template is exactly when no value has a separator. -/
theorem splitOn_fill_iff :
    (tokens.flatMap (fill params)).splitOn '/' =
      (segments tokens).map (fun segment => segment.flatMap (fill params)) ↔
        FreeOf tokens params ['/'] := by
  have hfill : fill params (.char '/') = ['/'] := rfl
  rw [segments, Segments.splitOn_flatMap_iff hfill]
  constructor
  · intro h name hname c hc
    rw [List.mem_singleton.mp hc]
    exact h (hole name) hname (by simp)
  · intro h token htoken hne
    cases token with
    | char c =>
      have hc : c ≠ '/' := fun he => hne (congrArg char he)
      rw [fill, List.mem_singleton]
      exact Ne.symm hc
    | hole name => exact h name htoken '/' (List.mem_singleton_self _)

/-- A path has the shape of its template exactly when no value has a separator, and no segment
with a hole is filled to a way up. -/
theorem keepsShape_iff {path : String} (hpath : path.toList = tokens.flatMap (fill params)) :
    KeepsShape tokens params path ↔
      FreeOf tokens params ['/', '?', '#'] ∧ ∀ segment ∈ segments tokens,
        segment.any isHole = true → segment.flatMap (fill params) ≠ ['.', '.'] := by
  have hcount (c : Char) : path.toList.count c = tokens.count (.char c) ↔
      ∀ name, hole name ∈ tokens → c ∉ paramText params name := by
    rw [hpath]
    exact count_flatMap_fill_iff c
  have hslash : path.toList.splitOn '/' =
      (segments tokens).map (fun segment => segment.flatMap (fill params)) ↔
        FreeOf tokens params ['/'] := by
    rw [hpath]
    exact splitOn_fill_iff
  constructor
  · intro h
    refine ⟨fun name hname c hc => ?_,h.noWayUp⟩
    rcases List.mem_cons.mp hc with rfl | hc
    · exact hslash.mp h.segments name hname _ (List.mem_singleton_self _)
    rcases List.mem_cons.mp hc with rfl | hc
    · exact (hcount '?').mp h.noQuery name hname
    · rw [List.mem_singleton.mp hc]
      exact (hcount '#').mp h.noFragment name hname
  · intro h
    have hfree {name : String} (hname : hole name ∈ tokens) {c : Char} (hc : c ∈ ['/', '?', '#']) :
        c ∉ paramText params name := h.1 name hname c hc
    constructor
    · apply hslash.mpr
      intro name hname c hc
      rw [List.mem_singleton.mp hc]
      exact hfree hname (by simp)
    · exact h.2
    · exact (hcount '?').mpr fun name hname => hfree hname (by simp)
    · exact (hcount '#').mpr fun name hname => hfree hname (by simp)

/-- A segment without holes is filled with its own text. -/
theorem flatMap_fill_of_noHole (params params' : Fields)
    (h : tokens.filter isHole = []) :
    tokens.flatMap (fill params) = tokens.flatMap (fill params') := by
  induction tokens with
  | nil => rfl
  | cons token tokens ih =>
    rw [List.flatMap_cons, List.flatMap_cons]
    cases token with
    | char c =>
      rw [ih (by simpa [isHole] using h)]
      rfl
    | hole name => simp [isHole] at h

/-- A segment with one hole gives the value of its hole away. -/
theorem paramText_of_flatMap {name : String}
    (hone : (tokens.filter isHole).length ≤ 1) (hmem : hole name ∈ tokens)
    (h : tokens.flatMap (fill params) = tokens.flatMap (fill params')) :
    paramText params name = paramText params' name := by
  induction tokens with
  | nil => cases hmem
  | cons token tokens ih =>
    rw [List.flatMap_cons, List.flatMap_cons] at h
    cases token with
    | char c =>
      have hmem' : hole name ∈ tokens := by simpa using hmem
      exact ih (by simpa [isHole] using hone) hmem' (List.append_cancel_left h)
    | hole other =>
      have hnone : tokens.filter isHole = [] := by
        rw [List.filter_cons_of_pos rfl, List.length_cons] at hone
        exact List.length_eq_zero_iff.mp (by omega)
      rw [flatMap_fill_of_noHole params params' hnone] at h
      have hother := List.append_cancel_right h
      rcases List.mem_cons.mp hmem with heq | hin
      · cases heq
        exact hother
      · have hhole : hole name ∈ tokens.filter isHole :=
          List.mem_filter.mpr ⟨hin,rfl⟩
        rw [hnone] at hhole
        cases hhole

/-- Values with no separator in holes that lie in segments of their own can be read off. -/
theorem paramText_of_segments (hone : OneHoleEach tokens) (hfree : FreeOf tokens params ['/'])
    (hfree' : FreeOf tokens params' ['/'])
    (h : tokens.flatMap (fill params) = tokens.flatMap (fill params')) {name : String}
    (hname : hole name ∈ tokens) : paramText params name = paramText params' name := by
  have hmap : (segments tokens).map (fun segment => segment.flatMap (fill params)) =
      (segments tokens).map fun segment => segment.flatMap (fill params') := by
    rw [← splitOn_fill_iff.mpr hfree, h, splitOn_fill_iff.mpr hfree']
  have hin : ∃ segment ∈ segments tokens, hole name ∈ segment :=
    Segments.exists_mem_splitOn_iff.mpr ⟨hname,by simp⟩
  obtain ⟨segment,hsegment,hhole⟩ := hin
  exact paramText_of_flatMap (hone segment hsegment) hhole
    (List.map_inj_left.mp hmap segment hsegment)

/-- With one name the length of the path gives the length of its value. -/
theorem length_fill {name : String} (h : ∀ name', hole name' ∈ tokens → name' = name) :
    (tokens.flatMap (fill params)).length =
      tokens.length + tokens.count (hole name) * (paramText params name).length
        - tokens.count (hole name) := by
  induction tokens with
  | nil => simp
  | cons token tokens ih =>
    have hrest := ih fun name' hname' => h name' (List.mem_cons_of_mem _ hname')
    have hle : tokens.count (hole name) ≤ tokens.length := List.count_le_length
    rw [List.flatMap_cons, List.length_append, hrest, List.length_cons, List.count_cons]
    cases token with
    | char c =>
      simp [fill]
      omega
    | hole other =>
      rw [h other List.mem_cons_self]
      simp [fill, Nat.add_mul]
      omega

/-- One name can be read off whatever its value is. -/
theorem paramText_of_oneName (hone : OneName tokens)
    (h : tokens.flatMap (fill params) = tokens.flatMap (fill params')) {name : String}
    (hname : hole name ∈ tokens) : paramText params name = paramText params' name := by
  have hnames : ∀ name', hole name' ∈ tokens → name' = name :=
    fun name' hname' => hone name' name hname' hname
  have hlen : (paramText params name).length = (paramText params' name).length := by
    have hpos : 0 < tokens.count (hole name) := List.count_pos_iff.mpr hname
    have hle : tokens.count (hole name) ≤ tokens.length := List.count_le_length
    have heq := congrArg List.length h
    rw [length_fill hnames, length_fill hnames] at heq
    apply Nat.eq_of_mul_eq_mul_left hpos
    omega
  clear hone
  induction tokens with
  | nil => cases hname
  | cons token tokens ih =>
    rw [List.flatMap_cons, List.flatMap_cons] at h
    cases token with
    | char c =>
      have hrest : ∀ name', hole name' ∈ tokens → name' = name :=
        fun name' hname' => hnames name' (List.mem_cons_of_mem _ hname')
      exact ih (List.append_cancel_left h) (by simpa using hname) hrest
    | hole other =>
      rw [hnames other List.mem_cons_self] at h
      exact (List.append_inj h hlen).1

end PathToken

namespace PathTemplate

/-- What is rendered has the shape of the template exactly for values without separators that
make no way up. Different values are kept apart when the template has one name only, or when
each segment has one hole and no value has a separator. -/
theorem render_shape {t : PathTemplate} {operationAlias path path' : String}
    {params params' : Option Fields} (h : t.render operationAlias params = .ok path)
    (h' : t.render operationAlias params' = .ok path') :
    (PathToken.KeepsShape t.tokens (params.getD []) path ↔
      PathToken.FreeOf t.tokens (params.getD []) ['/', '?', '#'] ∧
        ∀ segment ∈ PathToken.segments t.tokens, segment.any PathToken.isHole = true →
          segment.flatMap (fill (params.getD [])) ≠ ['.', '.']) ∧
    ((PathToken.OneName t.tokens ∨ PathToken.OneHoleEach t.tokens ∧
        PathToken.FreeOf t.tokens (params.getD []) ['/'] ∧
        PathToken.FreeOf t.tokens (params'.getD []) ['/']) →
      (∃ name, .hole name ∈ t.tokens ∧
        paramText (params.getD []) name ≠ paramText (params'.getD []) name) →
      path ≠ path') := by
  refine ⟨PathToken.keepsShape_iff (path_of_render h),?_⟩
  intro hkept hdiffer heq
  obtain ⟨name,hname,hne⟩ := hdiffer
  have hfill : t.tokens.flatMap (fill (params.getD [])) =
      t.tokens.flatMap (fill (params'.getD [])) := by
    rw [← path_of_render h, ← path_of_render h', heq]
  rcases hkept with hone | ⟨hone,hfree,hfree'⟩
  · exact hne (PathToken.paramText_of_oneName hone hfill hname)
  · exact hne (PathToken.paramText_of_segments hone hfree hfree' hfill hname)

end PathTemplate

namespace OperationSpec

variable (op : OperationSpec)

def tokens : List PathToken := op.pathTemplate.flatMap PathPart.tokens

theorem mem_pathParams {name : String} : name ∈ op.pathParams ↔ .hole name ∈ op.tokens := by
  unfold tokens pathParams
  induction op.pathTemplate with
  | nil => simp
  | cons part parts ih =>
    rw [List.flatMap_cons, List.mem_append, ← ih]
    cases part with
    | text s => simp [PathPart.tokens]
    | param other => simp [PathPart.tokens]

theorem renderPath_toList (params : Fields) :
    (op.renderPath params).toList = op.tokens.flatMap (fill params) := by
  unfold renderPath tokens
  induction op.pathTemplate with
  | nil => rfl
  | cons part parts ih =>
    rw [List.map_cons, List.flatMap_cons, List.flatMap_append, ← ih]
    cases part with
    | text s => simp [PathPart.tokens, List.flatMap_map, fill]
    | param name => simp [PathPart.tokens, fill, paramText]

/-- An operation has the path of its template. -/
theorem build_eq_render {t : PathTemplate} (htokens : t.tokens = op.tokens)
    (hrequired : t.required = op.pathParams) (params : Option Fields) (payload : Value) :
    op.build params payload = (t.render op.operationAlias params).map fun path =>
      { method := op.method, path := path, query := op.queryDefaults
        headers := op.headerDefaults, json := payload, expectedStatuses := op.expectedStatuses } := by
  unfold build PathTemplate.render
  dsimp only
  rw [hrequired]
  by_cases hmissing : op.pathParams.filter (fun name => !Dict.contains (params.getD []) name) = []
  · have hnone : (PathToken.holes t.tokens).find?
        (fun name => !Dict.contains (params.getD []) name) = none := by
      apply List.find?_eq_none.mpr
      intro name hname
      rw [htokens] at hname
      exact List.filter_eq_nil_iff.mp hmissing name
        (op.mem_pathParams.mpr (PathToken.mem_holes.mp hname))
    rw [if_pos hmissing, if_pos hmissing, hnone, htokens, ← op.renderPath_toList,
      String.ofList_toList]
    rfl
  · rw [if_neg hmissing, if_neg hmissing]
    rfl

end OperationSpec

namespace PathTemplate

def userPath : PathTemplate :=
  { text := "/users/{target_id}"
    tokens := "/users/".toList.map .char ++ [.hole "target_id"]
    scanned := by decide }

/-- A user of an organisation. -/
def memberPath : PathTemplate :=
  { text := "/org/{org_id}/user/{user_id}"
    tokens := "/org/".toList.map .char ++ .hole "org_id" :: "/user/".toList.map .char ++
      [.hole "user_id"]
    scanned := by decide }

def memberParams (org user : String) : Option Fields :=
  some [("org_id",.str org),("user_id",.str user)]

theorem render_shape_members :
    PathToken.KeepsShape memberPath.tokens ((memberParams "north" "a.b").getD [])
      "/org/north/user/a.b" ∧
    "/org/north/user/a.b" ≠ "/org/north/user/c" := by
  have h : memberPath.render "users.get" (memberParams "north" "a.b") =
    .ok "/org/north/user/a.b" := by decide
  have h' : memberPath.render "users.get" (memberParams "north" "c") =
    .ok "/org/north/user/c" := by decide
  have hshape := render_shape h h'
  exact ⟨hshape.1.mpr ⟨by decide,by decide⟩,
    hshape.2 (.inr ⟨by decide,by decide,by decide⟩)
      ⟨"user_id",by decide,by decide⟩⟩

/-- An id is put into the path with its separators: it leads out of the users and asks a query,
and two members of two organisations have one path. -/
theorem path_escapes :
    userPath.render "users.get" (some [("target_id",.str "../admin?all=1")]) =
      .ok "/users/../admin?all=1" ∧
    ¬ PathToken.KeepsShape userPath.tokens [("target_id",.str "../admin?all=1")]
      "/users/../admin?all=1" ∧
    memberPath.render "users.get" (memberParams "a/user/b" "c") =
      memberPath.render "users.get" (memberParams "a" "b/user/c") ∧
    memberPath.render "users.get" (memberParams "a" "b/user/c") = .ok "/org/a/user/b/user/c" := by
  refine ⟨by decide,?_,by decide,by decide⟩
  intro h
  have hcount := h.noQuery
  revert hcount
  decide

end PathTemplate
end NexusEtl
