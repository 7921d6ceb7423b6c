import NexusEtl.Library.Dict
import Mathlib.Data.List.Infix
import Mathlib.Data.List.Forall2

/-!
# Nested maps

A nested map has under each key a plain value or another map. What it holds at a
path says everything about it but the order of its keys, and merging and writing
are described by what they hold at each path.
-/

set_option autoImplicit false

namespace NexusEtl.Library

inductive Tree (κ α : Type) where
  | leaf (a : α)
  | node (children : List (κ × Tree κ α))

namespace Tree

variable {κ α : Type} [DecidableEq κ]

abbrev Children (κ α : Type) := Dict κ (Tree κ α)

/-- What stands at a path: a plain value, a map or nothing. -/
def look : Children κ α → List κ → Option (Option α)
  | _, [] => some none
  | children, k::path => match Dict.get? children k with
    | none => none
    | some (.leaf a) => if path.isEmpty then some (some a) else none
    | some (.node found) => look found path

/-- The map under a key, empty where there is none. -/
def under (children : Children κ α) (k : κ) : Children κ α :=
  match Dict.get? children k with
  | some (.node found) => found
  | _ => []

/-- Writes a tree at a path and makes a map of whatever stands above it. -/
def setAt : Children κ α → List κ → Tree κ α → Children κ α
  | children, [], _ => children
  | children, [k], t => Dict.set children k t
  | children, k::k'::path, t => Dict.set children k (.node (setAt (under children k) (k'::path) t))

mutual

def mergeEntry (absent : α → Bool) (target : Children κ α) (k : κ) : Tree κ α → Children κ α
  | .leaf a => if absent a then target else Dict.set target k (.leaf a)
  | .node found => Dict.set target k (.node (merge absent (under target k) found))

/-- Writes the plain values of a map into another one and merges the maps of both. -/
def merge (absent : α → Bool) (target : Children κ α) : List (κ × Tree κ α) → Children κ α
  | [] => target
  | (k,t)::rest => merge absent (mergeEntry absent target k t) rest

end

mutual

def leavesOf : Tree κ α → List (List κ × α)
  | .leaf a => [([],a)]
  | .node found => leaves found

/-- The plain values with their paths. -/
def leaves : List (κ × Tree κ α) → List (List κ × α)
  | [] => []
  | (k,t)::rest => (leavesOf t).map (fun e => (k::e.1,e.2)) ++ leaves rest

end

/-- No map inside has two entries of one key. -/
inductive Unique : Children κ α → Prop
  | intro {children : Children κ α} (keys : (Dict.keys children).Nodup)
      (inside : ∀ k found, (k,.node found) ∈ children → Unique found) : Unique children

/-- Induction over a nested map: its entries in turn, and the entries inside them. -/
@[elab_as_elim]
theorem children_induction {κ α : Type} {motive : Children κ α → Prop} (nil : motive [])
    (leaf : ∀ k a rest, motive rest → motive ((k,.leaf a)::rest))
    (node : ∀ k found rest, motive found → motive rest → motive ((k,.node found)::rest)) :
    ∀ children, motive children
  | [] => nil
  | (k,.leaf a)::rest => leaf k a rest (children_induction nil leaf node rest)
  | (k,.node found)::rest => node k found rest (children_induction nil leaf node found)
      (children_induction nil leaf node rest)

theorem look_cons (children : Children κ α) (k : κ) (path : List κ) :
    look children (k::path) = match Dict.get? children k with
      | none => none
      | some (.leaf a) => if path.isEmpty then some (some a) else none
      | some (.node found) => look found path := rfl

theorem key_of_look {children : Children κ α} {k : κ} {path : List κ}
    (h : look children (k::path) ≠ none) : k ∈ Dict.keys children := by
  rw [look_cons] at h
  rw [Dict.mem_keys_iff]
  cases hget : Dict.get? children k with
  | none => simp [hget] at h
  | some t => rfl

/-- Below a key stands what its map holds. -/
theorem look_under (children : Children κ α) (k : κ) {path : List κ} (h : path ≠ []) :
    look (under children k) path = look children (k::path) := by
  obtain ⟨k',path,rfl⟩ := List.exists_cons_of_ne_nil h
  rw [look_cons children, under]
  cases Dict.get? children k with
  | none => rfl
  | some t => cases t <;> rfl

theorem under_congr {children others : Children κ α} {k : κ}
    (h : Dict.get? children k = Dict.get? others k) : under children k = under others k := by
  rw [under, under, h]

theorem look_cons_self (k : κ) (found children : Children κ α) (path : List κ) :
    look ((k,.node found)::children) (k::path) = look found path := by
  rw [look_cons, Dict.get?, if_pos rfl]

/-- What is no map under a key is the same value or nothing in both maps. -/
theorem get?_congr {children others : Children κ α} {k : κ}
    (h : look children [k] = look others [k]) (hplain : look children [k] ≠ some none) :
    Dict.get? children k = Dict.get? others k := by
  rw [look_cons] at hplain
  rw [look_cons, look_cons] at h
  cases hc : Dict.get? children k with
  | none =>
    cases ho : Dict.get? others k with
    | none => rfl
    | some t => cases t <;> simp [hc, ho, look] at h
  | some t =>
    cases t with
    | node found => simp [hc, look] at hplain
    | leaf a =>
      cases ho : Dict.get? others k with
      | none => simp [hc, ho] at h
      | some t' =>
        cases t' with
        | leaf b =>
          simp only [hc, ho, List.isEmpty_nil, if_true, Option.some.injEq] at h
          rw [h]
        | node found => simp [hc, ho, look] at h

/-! ## Writing at a path -/

theorem look_setAt_self (children : Children κ α) {path : List κ} (h : path ≠ []) (a : α) :
    look (setAt children path (.leaf a)) path = some (some a) := by
  induction path generalizing children with
  | nil => exact absurd rfl h
  | cons k path ih =>
    cases path with
    | nil => simp [setAt, look_cons]
    | cons k' path =>
      rw [setAt, look_cons, Dict.get?_set, if_pos rfl]
      exact ih (under children k) (List.cons_ne_nil k' path)

theorem look_setAt_above (children : Children κ α) {path above : List κ} (habove : above <+: path)
    (hne : above ≠ path) (t : Tree κ α) : look (setAt children path t) above = some none := by
  induction path generalizing children above with
  | nil => exact absurd (List.prefix_nil.mp habove) hne
  | cons k path ih =>
    cases above with
    | nil => rfl
    | cons k₁ above =>
      obtain ⟨rfl,hrest⟩ := List.cons_prefix_cons.mp habove
      have hne' : above ≠ path := fun heq => hne (by rw [heq])
      cases path with
      | nil => exact absurd (List.prefix_nil.mp hrest) hne'
      | cons k' path =>
        rw [setAt, look_cons, Dict.get?_set, if_pos rfl]
        exact ih (under children k₁) hrest hne'

theorem look_setAt_inside (children : Children κ α) {path inside : List κ} (hpath : path ≠ [])
    (hinside : path <+: inside) (hne : path ≠ inside) (a : α) :
    look (setAt children path (.leaf a)) inside = none := by
  induction path generalizing children inside with
  | nil => exact absurd rfl hpath
  | cons k path ih =>
    cases inside with
    | nil => exact absurd (List.prefix_nil.mp hinside) hne
    | cons k₁ inside =>
      obtain ⟨rfl,hrest⟩ := List.cons_prefix_cons.mp hinside
      have hne' : path ≠ inside := fun heq => hne (by rw [heq])
      cases path with
      | nil =>
        obtain ⟨k',inside,rfl⟩ := List.exists_cons_of_ne_nil hne'.symm
        simp [setAt, look_cons]
      | cons k' path =>
        rw [setAt, look_cons, Dict.get?_set, if_pos rfl]
        exact ih (under children k) (List.cons_ne_nil k' path) hrest hne'

theorem look_setAt_other (children : Children κ α) {path other : List κ}
    (habove : ¬other <+: path) (hinside : ¬path <+: other) (t : Tree κ α) :
    look (setAt children path t) other = look children other := by
  induction path generalizing children other with
  | nil => exact absurd List.nil_prefix hinside
  | cons k path ih =>
    cases other with
    | nil => exact absurd List.nil_prefix habove
    | cons k₁ other =>
      by_cases hk : k = k₁
      · subst hk
        have habove' : ¬other <+: path := fun h => habove (List.cons_prefix_cons.mpr ⟨rfl,h⟩)
        have hinside' : ¬path <+: other := fun h => hinside (List.cons_prefix_cons.mpr ⟨rfl,h⟩)
        cases path with
        | nil => exact absurd List.nil_prefix hinside'
        | cons k' path =>
          have hother : other ≠ [] := fun heq => habove' (heq ▸ List.nil_prefix)
          rw [setAt, look_cons, Dict.get?_set, if_pos rfl]
          exact (ih (under children k) habove' hinside').trans (look_under children k hother)
      · have hget : ∀ t, Dict.get? (Dict.set children k t) k₁ = Dict.get? children k₁ :=
          fun t => Dict.get?_set_ne children t hk
        cases path with
        | nil => rw [setAt, look_cons, look_cons, hget]
        | cons k' path => rw [setAt, look_cons, look_cons, hget]

/-! ## Merging -/

variable {absent : α → Bool}

/-- A merge writes what the source has under a key, and keeps what it does not have. -/
theorem get?_merge (target : Children κ α) {source : Children κ α}
    (h : (Dict.keys source).Nodup) (k : κ) :
    Dict.get? (merge absent target source) k = match Dict.get? source k with
      | none => Dict.get? target k
      | some (.leaf a) => if absent a then Dict.get? target k else some (.leaf a)
      | some (.node found) => some (.node (merge absent (under target k) found)) := by
  induction source generalizing target with
  | nil => rfl
  | cons entry rest ih =>
    obtain ⟨key,t⟩ := entry
    obtain ⟨hnew,hrest⟩ := List.nodup_cons.mp h
    rw [merge]
    cases t with
    | leaf a =>
      rw [mergeEntry, ih _ hrest, Dict.get?]
      by_cases hk : key = k
      · subst hk
        rw [Dict.get?_eq_none hnew, if_pos rfl]
        by_cases habsent : absent a = true
        · simp [habsent]
        · simp [habsent]
      · have htarget : Dict.get? (if absent a then target else Dict.set target key (.leaf a)) k =
            Dict.get? target k := by
          split
          · rfl
          · exact Dict.get?_set_ne target _ hk
        rw [if_neg hk, htarget, under_congr htarget]
    | node found =>
      rw [mergeEntry, ih _ hrest, Dict.get?]
      by_cases hk : key = k
      · subst hk
        rw [Dict.get?_eq_none hnew, if_pos rfl]
        simp
      · have htarget := Dict.get?_set_ne target
          (.node (merge absent (under target key) found)) hk
        rw [if_neg hk, htarget, under_congr htarget]

/-- What a source sets: the maps and the plain values that are not absent. -/
def given (absent : α → Bool) (source : Children κ α) (path : List κ) : Option (Option α) :=
  match look source path with
  | some (some a) => if absent a then none else some (some a)
  | other => other

/-- Whether a source sets a plain value at the path or above it. -/
def covers (absent : α → Bool) (source : Children κ α) (path : List κ) : Bool :=
  path.inits.any fun above => match given absent source above with
    | some (some _) => true
    | _ => false

theorem covers_iff {source : Children κ α} {path : List κ} :
    covers absent source path = true ↔
      ∃ above, above <+: path ∧ ∃ a, given absent source above = some (some a) := by
  rw [covers, List.any_eq_true]
  constructor
  · rintro ⟨above,habove,h⟩
    refine ⟨above,List.mem_inits _ _ |>.mp habove,?_⟩
    split at h
    · next a hgiven => exact ⟨a,hgiven⟩
    · cases h
  · rintro ⟨above,habove,a,h⟩
    exact ⟨above,(List.mem_inits _ _).mpr habove,by rw [h]⟩

theorem given_cons (source : Children κ α) (k : κ) (path : List κ) :
    given absent source (k::path) = match Dict.get? source k with
      | none => none
      | some (.leaf a) => if absent a ∨ path ≠ [] then none else some (some a)
      | some (.node found) => given absent found path := by
  rw [given, look_cons]
  cases Dict.get? source k with
  | none => rfl
  | some t =>
    cases t with
    | node found => rfl
    | leaf a =>
      cases path with
      | nil => by_cases habsent : absent a = true <;> simp [habsent]
      | cons k' path => simp

theorem covers_cons (source : Children κ α) (k : κ) (path : List κ) :
    covers absent source (k::path) = match Dict.get? source k with
      | none => false
      | some (.leaf a) => !absent a
      | some (.node found) => covers absent found path := by
  have hroot : given absent source [] = some none := rfl
  rw [covers, List.inits_cons, List.any_cons, List.any_map, hroot, Bool.false_or]
  simp only [Function.comp_def, given_cons]
  cases Dict.get? source k with
  | none => simp
  | some t =>
    cases t with
    | node found => rfl
    | leaf a =>
      by_cases habsent : absent a = true
      · simp [habsent]
      · have hempty : [] ∈ path.inits := (List.mem_inits _ _).mpr List.nil_prefix
        simp only [habsent, Bool.not_false]
        exact List.any_eq_true.mpr ⟨[],hempty,by simp⟩

/-- What a merge holds at a path: what the source sets there, and else what the target holds
unless the source sets a plain value above. -/
theorem look_merge (target : Children κ α) {source : Children κ α} (h : Unique source)
    (path : List κ) : look (merge absent target source) path =
      match given absent source path with
      | some found => some found
      | none => if covers absent source path then none else look target path := by
  induction path generalizing target source with
  | nil => rfl
  | cons k path ih =>
    obtain ⟨hkeys,hinside⟩ := h
    rw [look_cons, get?_merge target hkeys, given_cons, covers_cons]
    cases hget : Dict.get? source k with
    | none => rfl
    | some t =>
      cases t with
      | leaf a =>
        by_cases habsent : absent a = true
        · simp [habsent, look_cons]
        · by_cases hpath : path = []
          · simp [habsent, hpath]
          · simp [habsent, hpath]
      | node found =>
        have hfound := ih (under target k) (hinside k found (Dict.mem_of_get? hget))
        cases path with
        | nil => rfl
        | cons k' path =>
          rw [look_under target k (List.cons_ne_nil k' path)] at hfound
          exact hfound

/-- Whether two nested maps hold the same at every path. -/
def Same (children others : Children κ α) : Prop := ∀ path, look children path = look others path

/-- Merges of maps that hold the same hold the same. -/
theorem Same.merge {target target' source source' : Children κ α} (htarget : Same target target')
    (hsource : Same source source') (h : Unique source) (h' : Unique source') :
    Same (merge absent target source) (merge absent target' source') := by
  have hgiven : given absent source = given absent source' := by
    funext path
    rw [given, given, hsource path]
  intro path
  rw [look_merge target h, look_merge target' h', covers, covers, hgiven, htarget path]

/-- The same entry under a key of two maps: nothing, a plain value, or maps that hold the same. -/
def SameEntry : Option (Tree κ α) → Option (Tree κ α) → Prop
  | none, none => True
  | some (.leaf a), some (.leaf b) => a = b
  | some (.node found), some (.node found') => Same found found'
  | _, _ => False

theorem Same.entry {children others : Children κ α} (h : Same children others) (k : κ) :
    SameEntry (Dict.get? children k) (Dict.get? others k) := by
  have hroot := h [k]
  have hinside := fun path => h (k::path)
  simp only [look_cons] at hroot hinside
  cases hc : Dict.get? children k with
  | none =>
    cases ho : Dict.get? others k with
    | none => trivial
    | some t => cases t <;> simp [hc, ho, look] at hroot
  | some t =>
    cases ho : Dict.get? others k with
    | none => cases t <;> simp [hc, ho, look] at hroot
    | some t' =>
      cases t with
      | leaf a => cases t' with
        | leaf b => simpa [hc, ho, SameEntry] using hroot
        | node found => simp [hc, ho, look] at hroot
      | node found => cases t' with
        | leaf b => simp [hc, ho, look] at hroot
        | node found' => exact fun path => by simpa [hc, ho] using hinside path

theorem Same.contains {children others : Children κ α} (h : Same children others) :
    Dict.contains children = Dict.contains others := by
  funext k
  have hentry := h.entry k
  rw [Dict.contains, Dict.contains]
  cases hc : Dict.get? children k with
  | none =>
    cases ho : Dict.get? others k with
    | none => rfl
    | some t => simp [hc, ho, SameEntry] at hentry
  | some t =>
    cases ho : Dict.get? others k with
    | none => cases t <;> simp [hc, ho, SameEntry] at hentry
    | some t' => rfl

theorem Same.keys {children others : Children κ α} (h : Same children others) {k : κ} :
    k ∈ Dict.keys children ↔ k ∈ Dict.keys others := by
  rw [Dict.mem_keys_iff, Dict.mem_keys_iff]
  exact (congrArg (· = true) (congrFun h.contains k)).to_iff

/-! ## Plain values -/

omit [DecidableEq κ] in
theorem Unique.rest {entry : κ × Tree κ α} {children : Children κ α}
    (h : Unique (entry::children)) : Unique children := by
  obtain ⟨hkeys,hinside⟩ := h
  exact ⟨(List.nodup_cons.mp hkeys).2,fun k found hmem => hinside k found (.tail _ hmem)⟩

theorem look_cons_rest {entry : κ × Tree κ α} {children : Children κ α} {k : κ}
    {path : List κ} (h : entry.1 ≠ k) : look (entry::children) (k::path) = look children (k::path) := by
  rw [look_cons, look_cons, Dict.get?, if_neg h]

/-- The first key of a map is not a key of the rest. -/
theorem Unique.look_rest {k : κ} {t : Tree κ α} {children : Children κ α}
    (h : Unique ((k,t)::children)) (path : List κ) : look children (k::path) = none := by
  obtain ⟨hkeys,-⟩ := h
  rw [look_cons, Dict.get?_eq_none (List.nodup_cons.mp hkeys).1]

theorem mem_leaves {source : Children κ α} (h : Unique source) {path : List κ} {a : α} :
    (path,a) ∈ leaves source ↔ look source path = some (some a) := by
  induction source using children_induction generalizing path with
  | nil => cases path <;> simp [leaves, look]
  | node k found rest ihfound ihrest =>
    have hfound : Unique found := by
      obtain ⟨-,hinside⟩ := h
      exact hinside k found List.mem_cons_self
    rw [leaves, leavesOf, List.mem_append, List.mem_map, ihrest h.rest]
    cases path with
    | nil => simp [look]
    | cons k' path =>
      by_cases hk : k = k'
      · subst hk
        rw [h.look_rest, look_cons, Dict.get?, if_pos rfl]
        constructor
        · intro hmem
          obtain ⟨e,he,heq⟩ := hmem.resolve_right fun hnone => by cases hnone
          cases heq
          exact (ihfound hfound).mp he
        · intro hlook
          exact .inl ⟨(path,a),(ihfound hfound).mpr hlook,rfl⟩
      · have hfirst : ¬∃ e ∈ leaves found, (k::e.1,e.2) = (k'::path,a) := by
          simp [hk]
        rw [look_cons_rest hk]
        exact or_iff_right hfirst
  | leaf k b rest ih =>
    rw [leaves, leavesOf, List.map_singleton, List.singleton_append, List.mem_cons, ih h.rest]
    cases path with
    | nil => simp [look]
    | cons k' path =>
      by_cases hk : k = k'
      · subst hk
        rw [h.look_rest, look_cons, Dict.get?, if_pos rfl]
        cases path <;> simp [eq_comm]
      · rw [look_cons_rest hk]
        simp [Ne.symm hk]

/-! ## Maps written entry by entry -/

omit [DecidableEq κ] in
theorem Unique.nil : Unique ([] : Children κ α) :=
  ⟨List.nodup_nil,fun _ _ h => absurd h List.not_mem_nil⟩

theorem Unique.under {children : Children κ α} (h : Unique children) (k : κ) :
    Unique (under children k) := by
  obtain ⟨-,hinside⟩ := h
  rw [Tree.under]
  cases hget : Dict.get? children k with
  | none => exact .nil
  | some t =>
    cases t with
    | leaf a => exact .nil
    | node found => exact hinside k found (Dict.mem_of_get? hget)

theorem Unique.set {children : Children κ α} (h : Unique children) (k : κ) {t : Tree κ α}
    (ht : ∀ found, t = .node found → Unique found) : Unique (Dict.set children k t) := by
  obtain ⟨hkeys,hinside⟩ := h
  refine ⟨Dict.nodup_keys_set hkeys k t,fun k' found hmem => ?_⟩
  rcases Dict.mem_of_mem_set hmem with heq | hold
  · exact ht found (Prod.mk.inj heq).2.symm
  · exact hinside k' found hold

theorem Unique.setAt {children : Children κ α} (h : Unique children) (path : List κ)
    {t : Tree κ α} (ht : ∀ found, t = .node found → Unique found) :
    Unique (setAt children path t) := by
  induction path generalizing children with
  | nil => exact h
  | cons k path ih =>
    cases path with
    | nil => exact h.set k ht
    | cons k' path =>
      refine h.set k fun found hfound => ?_
      cases hfound
      exact ih (h.under k)

/-- A map written entry by entry. -/
def ofEntries (entries : List (List κ × Tree κ α)) : Children κ α :=
  entries.foldl (fun children e => setAt children e.1 e.2) []

theorem unique_ofEntries {entries : List (List κ × Tree κ α)}
    (h : ∀ e ∈ entries, ∀ found, e.2 = .node found → Unique found) :
    Unique (ofEntries entries) := by
  induction entries using List.reverseRecOn with
  | nil => exact .nil
  | append_singleton entries e ih =>
    rw [ofEntries, List.foldl_append]
    exact (ih fun e he => h e (List.mem_append_left _ he)).setAt e.1
      (h e (List.mem_append_right _ (List.mem_singleton.mpr rfl)))

/-- The plain entries as entries of a map. -/
def plain (entries : List (List κ × α)) : List (List κ × Tree κ α) :=
  entries.map fun e => (e.1,.leaf e.2)

theorem unique_plain (entries : List (List κ × α)) : Unique (ofEntries (plain entries)) := by
  refine unique_ofEntries fun e he found hfound => ?_
  obtain ⟨written,-,rfl⟩ := List.mem_map.mp he
  cases hfound

/-- A plain value in a map of plain entries is the value of an entry. -/
theorem mem_of_look_plain {entries : List (List κ × α)} (hne : ∀ e ∈ entries, e.1 ≠ [])
    {path : List κ} {a : α} (h : look (ofEntries (plain entries)) path = some (some a)) :
    (path,a) ∈ entries := by
  induction entries using List.reverseRecOn with
  | nil => cases path <;> cases h
  | append_singleton entries e ih =>
    have hlast : e ∈ entries ++ [e] := List.mem_append_right _ (List.mem_singleton.mpr rfl)
    have hwrite : ofEntries (plain (entries ++ [e])) =
        setAt (ofEntries (plain entries)) e.1 (.leaf e.2) := by
      simp [ofEntries, plain]
    rw [hwrite] at h
    by_cases hself : path = e.1
    · subst hself
      rw [look_setAt_self _ (hne e hlast)] at h
      cases h
      exact hlast
    · by_cases habove : path <+: e.1
      · rw [look_setAt_above _ habove hself] at h
        cases h
      · by_cases hinside : e.1 <+: path
        · rw [look_setAt_inside _ (hne e hlast) hinside (Ne.symm hself)] at h
          cases h
        · rw [look_setAt_other _ habove hinside] at h
          exact List.mem_append_left _ (ih (fun e he => hne e (List.mem_append_left _ he)) h)

/-- No entry writes over another one: two of them stand at one path only with one value, and none
stands inside another. -/
def Compatible (entries : List (List κ × α)) : Prop :=
  ∀ e ∈ entries, e.1 ≠ [] ∧ ∀ e' ∈ entries, e.1 <+: e'.1 → e = e'

omit [DecidableEq κ] in
theorem Compatible.front {entries : List (List κ × α)} {e : List κ × α}
    (h : Compatible (entries ++ [e])) : Compatible entries := by
  intro e₁ h₁
  obtain ⟨hne,hall⟩ := h e₁ (List.mem_append_left _ h₁)
  exact ⟨hne,fun e₂ h₂ => hall e₂ (List.mem_append_left _ h₂)⟩

/-- What compatible entries write, whatever their order. -/
theorem look_plain {entries : List (List κ × α)} (h : Compatible entries) (path : List κ) :
    (∀ a, look (ofEntries (plain entries)) path = some (some a) ↔ (path,a) ∈ entries) ∧
      (look (ofEntries (plain entries)) path = some none ↔
        path = [] ∨ ∃ e ∈ entries, path <+: e.1 ∧ path ≠ e.1) := by
  induction entries using List.reverseRecOn with
  | nil => cases path <;> simp [plain, ofEntries, look]
  | append_singleton entries e ih =>
    have hlast : e ∈ entries ++ [e] := List.mem_append_right _ (List.mem_singleton.mpr rfl)
    obtain ⟨hne,hall⟩ := h e hlast
    have hwrite : ofEntries (plain (entries ++ [e])) =
        setAt (ofEntries (plain entries)) e.1 (.leaf e.2) := by
      simp [ofEntries, plain]
    obtain ⟨hleaf,hnode⟩ := ih h.front
    rw [hwrite]
    by_cases hself : path = e.1
    · subst hself
      rw [look_setAt_self _ hne]
      refine ⟨fun a => ⟨fun ha => ?_,fun ha => ?_⟩,by simp,fun hnode => ?_⟩
      · cases ha
        exact hlast
      · rw [congrArg Prod.snd (hall _ ha List.prefix_rfl)]
      · obtain ⟨e',he',hbelow,hdiff⟩ := hnode.resolve_left hne
        exact absurd (congrArg Prod.fst (hall e' he' hbelow)) hdiff
    · by_cases habove : path <+: e.1
      · rw [look_setAt_above _ habove hself]
        refine ⟨fun a => ⟨by simp,fun ha => ?_⟩,fun _ => .inr ⟨e,hlast,habove,hself⟩,fun _ => rfl⟩
        have hsame := (h (path,a) ha).2 e hlast habove
        exact absurd (congrArg Prod.fst hsame) hself
      · by_cases hinside : e.1 <+: path
        · rw [look_setAt_inside _ hne hinside (Ne.symm hself)]
          refine ⟨fun a => ⟨by simp,fun ha => ?_⟩,by simp,fun hnode => ?_⟩
          · exact absurd (congrArg Prod.fst (hall _ ha hinside)).symm hself
          · rcases hnode with rfl | ⟨e',he',hbelow,-⟩
            · exact absurd (List.prefix_nil.mp hinside) hne
            · have hsame := hall e' he' (hinside.trans hbelow)
              exact absurd (hsame ▸ hbelow) habove
        · rw [look_setAt_other _ habove hinside, hnode]
          refine ⟨fun a => ?_,?_⟩
          · have hother : (path,a) ≠ e := fun heq => hself (congrArg Prod.fst heq)
            rw [hleaf a, List.mem_append, List.mem_singleton, or_iff_left hother]
          · simp [habove]

/-- Compatible entries write the same in every order. -/
theorem same_of_perm {entries others : List (List κ × α)} (h : Compatible entries)
    (hperm : entries.Perm others) : Same (ofEntries (plain entries)) (ofEntries (plain others)) := by
  have hothers : Compatible others := fun e he =>
    ⟨(h e (hperm.mem_iff.mpr he)).1,fun e' he' =>
      (h e (hperm.mem_iff.mpr he)).2 e' (hperm.mem_iff.mpr he')⟩
  intro path
  have hfirst := look_plain h path
  have hsecond := look_plain hothers path
  simp only [hperm.mem_iff] at hfirst
  refine Option.ext fun found => ?_
  cases found with
  | none => exact hfirst.2.trans hsecond.2.symm
  | some a => exact (hfirst.1 a).trans (hsecond.1 a).symm

/-! ## Merging sources in order -/

/-- The plain value that a source sets at a path. -/
def sets (absent : α → Bool) (source : Children κ α) (path : List κ) : Option α :=
  (given absent source path).join

theorem Same.sets {source other : Children κ α} (h : Same source other) :
    sets absent source = sets absent other := by
  funext path
  rw [Tree.sets, Tree.sets, given, given, h path]

theorem sets_eq_some_iff {source : Children κ α} {path : List κ} {a : α} :
    sets absent source path = some a ↔ given absent source path = some (some a) := by
  rw [sets, Option.join_eq_some_iff]

theorem sets_iff {source : Children κ α} {path : List κ} {a : α} :
    sets absent source path = some a ↔ look source path = some (some a) ∧ absent a = false := by
  rw [sets_eq_some_iff, given]
  split
  · next b hb =>
    rw [hb]
    by_cases habsent : absent b = true
    · simp only [habsent, if_true, reduceCtorEq, Option.some.injEq, false_iff, not_and]
      rintro rfl
      simp [habsent]
    · simp only [habsent, Bool.false_eq_true, if_false, Option.some.injEq]
      constructor
      · rintro rfl
        exact ⟨rfl,Bool.eq_false_iff.mpr habsent⟩
      · exact fun h => h.1
  · next hother =>
    have hnone : look source path ≠ some (some a) := hother a
    exact ⟨fun h => absurd h hnone,fun h => absurd h.1 hnone⟩

theorem sets_ne_nil {source : Children κ α} {path : List κ} {a : α}
    (h : sets absent source path = some a) : path ≠ [] := by
  rintro rfl
  cases h

theorem covers_of_sets {source : Children κ α} {above path : List κ} {a : α}
    (h : sets absent source above = some a) (habove : above <+: path) :
    covers absent source path = true :=
  covers_iff.mpr ⟨above,habove,a,sets_eq_some_iff.mp h⟩

theorem look_merge_of_sets (target : Children κ α) {source : Children κ α} (h : Unique source)
    {path : List κ} {a : α} (hsets : sets absent source path = some a) :
    look (merge absent target source) path = some (some a) := by
  rw [look_merge target h, sets_eq_some_iff.mp hsets]

/-- A source that sets no plain value at a path or above it leaves there what is there, or has
there a map. -/
theorem look_merge_of_not_covers (target : Children κ α) {source : Children κ α}
    (h : Unique source) {path : List κ} (hcovers : covers absent source path = false) :
    look (merge absent target source) path = some none ∨
      look (merge absent target source) path = look target path := by
  rw [look_merge target h]
  cases hgiven : given absent source path with
  | none => exact .inr (by simp [hcovers])
  | some found =>
    cases found with
    | none => exact .inl rfl
    | some a =>
      have hcovered := covers_of_sets (sets_eq_some_iff.mpr hgiven) List.prefix_rfl
      rw [hcovers] at hcovered
      cases hcovered

/-- What is the same in two targets, but for a map in the first, is so after a merge. -/
theorem look_merge_congr {target target' source : Children κ α} (h : Unique source)
    {path : List κ} (hlook : look target path = some none ∨ look target path = look target' path) :
    look (merge absent target source) path = some none ∨
      look (merge absent target source) path = look (merge absent target' source) path := by
  rw [look_merge target h, look_merge target' h]
  cases given absent source path with
  | some found => exact .inr rfl
  | none =>
    by_cases hcovers : covers absent source path = true
    · exact .inr (by simp [hcovers])
    · simpa [hcovers] using hlook

/-- A plain value of a merge is one of the source, or one of the target that the source leaves
alone. -/
theorem leaf_of_merge {target source : Children κ α} (h : Unique source) {path : List κ} {a : α}
    (hleaf : look (merge absent target source) path = some (some a)) :
    sets absent source path = some a ∨
      (covers absent source path = false ∧ look target path = some (some a)) := by
  rw [look_merge target h] at hleaf
  cases hgiven : given absent source path with
  | some found =>
    rw [hgiven] at hleaf
    exact .inl (sets_eq_some_iff.mpr (hgiven.trans hleaf))
  | none =>
    rw [hgiven] at hleaf
    by_cases hcovers : covers absent source path = true
    · simp [hcovers] at hleaf
    · exact .inr ⟨Bool.eq_false_iff.mpr hcovers,by simpa [hcovers] using hleaf⟩

variable {ι : Type}

/-- Sources with their labels, merged from the first one to the last one. -/
def mergeAll (absent : α → Bool) (sources : List (ι × Children κ α)) : Children κ α :=
  sources.foldl (fun target source => merge absent target source.2) []

theorem mergeAll_append (sources : List (ι × Children κ α)) (last : ι × Children κ α) :
    mergeAll absent (sources ++ [last]) = merge absent (mergeAll absent sources) last.2 := by
  simp [mergeAll]

/-- A plain value of a merge of sources is set by one of them, and left alone by the later ones. -/
theorem leaf_of_mergeAll {sources : List (ι × Children κ α)} (h : ∀ s ∈ sources, Unique s.2)
    {path : List κ} {a : α} (hleaf : look (mergeAll absent sources) path = some (some a)) :
    ∃ before s after, sources = before ++ s::after ∧ sets absent s.2 path = some a ∧
      ∀ later ∈ after, covers absent later.2 path = false := by
  induction sources using List.reverseRecOn with
  | nil => cases path <;> cases hleaf
  | append_singleton sources last ih =>
    have hlast : last ∈ sources ++ [last] := List.mem_append_right _ List.mem_cons_self
    rw [mergeAll_append] at hleaf
    rcases leaf_of_merge (h last hlast) hleaf with hsets | ⟨hcovers,hold⟩
    · exact ⟨sources,last,[],rfl,hsets,fun later hlater => by cases hlater⟩
    · obtain ⟨before,s,after,rfl,hsets,hafter⟩ :=
        ih (fun s hs => h s (List.mem_append_left _ hs)) hold
      refine ⟨before,s,after ++ [last],by simp,hsets,fun later hlater => ?_⟩
      rcases List.mem_append.mp hlater with hlater | hlater
      · exact hafter later hlater
      · rw [List.mem_singleton.mp hlater]
        exact hcovers

/-- Where a source sets a plain value, something is left in the merge at the path or above it, at
a place where the source or a later one sets a plain value. -/
theorem exists_look_mergeAll {before after : List (ι × Children κ α)} {s : ι × Children κ α}
    (h : ∀ u ∈ before ++ s::after, Unique u.2) {path : List κ} {a : α}
    (hsets : sets absent s.2 path = some a) :
    ∃ left, left <+: path ∧ look (mergeAll absent (before ++ s::after)) left ≠ none ∧
      ∃ s' ∈ s::after, ∃ b, sets absent s'.2 left = some b := by
  induction after using List.reverseRecOn with
  | nil =>
    have hs := h s (List.mem_append_right _ List.mem_cons_self)
    refine ⟨path,List.prefix_rfl,?_,s,List.mem_cons_self,a,hsets⟩
    rw [mergeAll_append, look_merge_of_sets _ hs hsets]
    exact Option.some_ne_none _
  | append_singleton after last ih =>
    have hsplit : before ++ s::(after ++ [last]) = (before ++ s::after) ++ [last] := by simp
    have hlast := h last (by simp)
    rw [hsplit, mergeAll_append]
    obtain ⟨left,hleft,hlook,s',hs',b,hb⟩ := ih fun u hu =>
      h u (hsplit ▸ List.mem_append_left _ hu)
    by_cases hcovers : covers absent last.2 left = true
    · obtain ⟨above,habove,c,hc⟩ := covers_iff.mp hcovers
      have hc' := sets_eq_some_iff.mpr hc
      refine ⟨above,habove.trans hleft,?_,last,by simp,c,hc'⟩
      rw [look_merge_of_sets _ hlast hc']
      exact Option.some_ne_none _
    · refine ⟨left,hleft,?_,s',?_,b,hb⟩
      · rw [look_merge _ hlast, if_neg hcovers]
        cases given absent last.2 left with
        | some found => exact Option.some_ne_none _
        | none => exact hlook
      · rw [← List.cons_append]
        exact List.mem_append_left _ hs'

theorem same_mergeAll {sources others : List (ι × Children κ α)}
    (h : List.Forall₂ (fun s o => Same s.2 o.2 ∧ Unique s.2 ∧ Unique o.2) sources others) :
    Same (mergeAll absent sources) (mergeAll absent others) := by
  have hall : ∀ target target' : Children κ α, Same target target' →
      Same (sources.foldl (fun target source => merge absent target source.2) target)
        (others.foldl (fun target source => merge absent target source.2) target') := by
    induction h with
    | nil => exact fun target target' htarget => htarget
    | cons hfirst _ ih =>
      intro target target' htarget
      exact ih _ _ (htarget.merge hfirst.1 hfirst.2.1 hfirst.2.2)
  exact hall [] [] fun _ => rfl

end Tree
end NexusEtl.Library
