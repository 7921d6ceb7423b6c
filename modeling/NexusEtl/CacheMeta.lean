import Mathlib.Data.List.TakeWhile
import NexusEtl.Library.Dict
import NexusEtl.Library.LikePattern

/-!
# The metadata of the cache

Metadata of the cache as a whole and of each dataset share the table `meta`. A
row of a dataset has the name of the dataset, a dot and its own key as its key;
the rows of a dataset are found again by a LIKE pattern. For which dataset names
that keeps the datasets apart is settled here.
-/

set_option autoImplicit false

namespace NexusEtl
open NexusEtl.Library

/-- The table `meta`; its key is the primary key. -/
structure MetaTable where
  rows : Dict String (Option String)
  unique : (Dict.keys rows).Nodup
  deriving DecidableEq

/-- The keys that the code sets for no dataset. -/
def globalMetaKeys : List String := ["schema_version", "source_api_base"]

/-- What one statement wrote, and for whom. -/
structure MetaEntry where
  dataset : Option String
  key : String
  value : Option String
  deriving DecidableEq, Repr

def fullKey (dataset : Option String) (key : String) : String :=
  match dataset with
  | none => key
  | some dataset => dataset ++ "." ++ key

def likeText (text pattern : String) : Bool := like pattern.toList text.toList

/-- `row[0].split(".", 1)[1]`, where there is a dot. -/
def afterDot (key : String) : String :=
  if key.toList.contains '.' then
    String.ofList (key.toList.dropWhile fun c => c != '.').tail
  else key

def MetaEntry.row (entry : MetaEntry) : String × Option String :=
  (fullKey entry.dataset entry.key,entry.value)

namespace MetaTable

def getMeta (t : MetaTable) (dataset : Option String) : Dict String (Option String) :=
  match dataset with
  | none => Dict.update [] t.rows
  | some dataset =>
    Dict.update [] ((t.rows.filter fun row => likeText row.1 (dataset ++ "." ++ "%")).map
      fun row => (afterDot row.1,row.2))

def delete (t : MetaTable) (p : String → Bool) : MetaTable where
  rows := t.rows.filter fun row => !p row.1
  unique := t.unique.sublist (List.filter_sublist.map Prod.fst)

def setMeta (t : MetaTable) (dataset : Option String) (key : String) (value : Option String) :
    MetaTable :=
  match value with
  | none => t.delete fun k => k == fullKey dataset key
  | some value => ⟨Dict.set t.rows (fullKey dataset key) (some value),
      Dict.nodup_keys_set t.unique _ _⟩

def resetMeta (t : MetaTable) (dataset : String) : MetaTable :=
  t.delete fun k => likeText k (dataset ++ "." ++ "%")

/-- The part of `clear` that concerns the metadata. -/
def clear (t : MetaTable) (targets : List String) : MetaTable := targets.foldl resetMeta t

/-- The row of a dataset under a key of its own. -/
def entry (t : MetaTable) (dataset key : String) : Option (Option String) :=
  Dict.get? t.rows (fullKey (some dataset) key)

/-- The metadata of some datasets are apart. -/
structure Isolated (names : List String) : Prop where
  set : ∀ d ∈ names, ∀ e ∈ names, d ≠ e → ∀ (t : MetaTable) key value k,
    (t.setMeta (some d) key value).entry e k = t.entry e k
  reset : ∀ d ∈ names, ∀ e ∈ names, d ≠ e → ∀ (t : MetaTable) k,
    (t.resetMeta d).entry e k = t.entry e k
  get : ∀ d ∈ names, ∀ (t : MetaTable) (written : List MetaEntry),
    t.rows = written.map MetaEntry.row →
    (∀ w ∈ written, (w.dataset = none ∧ w.key ∈ globalMetaKeys) ∨
      ∃ e ∈ names, w.dataset = some e) →
    ∀ item ∈ t.getMeta (some d), ∃ w ∈ written,
      w.dataset = some d ∧ w.key = item.1 ∧ w.value = item.2

/-- Do the rows of two datasets meet? -/
def nameOverlaps (d e : String) : Bool :=
  overlaps (d.toList ++ ['.']) (e.toList ++ ['.'])

section Keys

theorem toList_fullKey (dataset key : String) :
    (fullKey (some dataset) key).toList = (dataset.toList ++ ['.']) ++ key.toList := by
  simp [fullKey]

theorem likeText_fullKey (d e k : String) :
    likeText (fullKey (some e) k) (d ++ "." ++ "%") =
      like ((d.toList ++ ['.']) ++ ['%']) ((e.toList ++ ['.']) ++ k.toList) := by
  simp [likeText, toList_fullKey]

theorem likeText_self (d k : String) : likeText (fullKey (some d) k) (d ++ "." ++ "%") = true := by
  rw [likeText_fullKey]
  exact like_open_self _ _

theorem likeText_of_other {d e : String} (h : nameOverlaps d e = false) (k : String) :
    likeText (fullKey (some e) k) (d ++ "." ++ "%") = false := by
  rw [likeText_fullKey, Bool.eq_false_iff]
  intro hlike
  have hoverlaps : nameOverlaps d e = true := (overlaps_iff _ _).mpr ⟨_,hlike⟩
  rw [h] at hoverlaps
  cases hoverlaps

theorem fullKey_ne {d e : String} (h : nameOverlaps d e = false) (key k : String) :
    fullKey (some d) key ≠ fullKey (some e) k := by
  intro heq
  have hlike := likeText_self d key
  rw [heq, likeText_of_other h] at hlike
  cases hlike

/-- A key that matches the pattern of a dataset has a dot. -/
theorem dot_of_likeText {d key : String} (h : likeText key (d ++ "." ++ "%") = true) :
    '.' ∈ key.toList :=
  mem_of_like (by decide) (by decide) (by decide) h (by simp)

theorem globalKey_not_like {key : String} (h : key ∈ globalMetaKeys) (d : String) :
    likeText key (d ++ "." ++ "%") = false := by
  rw [Bool.eq_false_iff]
  intro hlike
  have hdot := dot_of_likeText hlike
  have hnone : ∀ key ∈ globalMetaKeys, '.' ∉ key.toList := by decide
  exact hnone key h hdot

theorem afterDot_fullKey {d : String} (h : '.' ∉ d.toList) (k : String) :
    afterDot (fullKey (some d) k) = k := by
  have hdrop : ∀ l : List Char, '.' ∉ l →
      (l ++ '.'::k.toList).dropWhile (fun c => c != '.') = '.'::k.toList := by
    intro l hl
    rw [List.dropWhile_append_of_pos fun c hc => by simpa using ne_of_mem_of_not_mem hc hl]
    simp
  simp [afterDot, fullKey, hdrop _ h]

end Keys

section Statements

theorem get?_delete (t : MetaTable) {p : String → Bool} {key : String} (h : p key = false) :
    Dict.get? (t.delete p).rows key = Dict.get? t.rows key := by
  unfold delete
  dsimp only
  induction t.rows with
  | nil => rfl
  | cons row rows ih =>
    obtain ⟨k,v⟩ := row
    by_cases hk : k = key
    · subst hk
      simp [Dict.get?, h]
    · cases hp : p k with
      | true => simp [Dict.get?, hk, hp, ih]
      | false => simp [Dict.get?, hk, hp, ih]

theorem entry_setMeta {d e : String} (h : nameOverlaps d e = false) (t : MetaTable) (key : String)
    (value : Option String) (k : String) :
    (t.setMeta (some d) key value).entry e k = t.entry e k := by
  have hne := fullKey_ne h key k
  unfold entry
  cases value with
  | none => exact get?_delete t (beq_false_of_ne hne.symm)
  | some value => exact Dict.get?_set_ne _ _ hne

theorem entry_resetMeta {d e : String} (h : nameOverlaps d e = false) (t : MetaTable)
    (k : String) : (t.resetMeta d).entry e k = t.entry e k :=
  get?_delete t (likeText_of_other h k)

theorem mem_update {item : String × Option String} {rows d : Dict String (Option String)}
    (h : item ∈ Dict.update d rows) : item ∈ rows ∨ item ∈ d := by
  induction rows generalizing d with
  | nil => exact .inr h
  | cons row rows ih =>
    rcases ih h with hrows | hset
    · exact .inl (.tail _ hrows)
    · rcases Dict.mem_of_mem_set hset with rfl | hd
      · exact .inl List.mem_cons_self
      · exact .inr hd

theorem mem_getMeta {t : MetaTable} {d : String} {item : String × Option String}
    (h : item ∈ t.getMeta (some d)) : ∃ row ∈ t.rows,
      likeText row.1 (d ++ "." ++ "%") = true ∧ (afterDot row.1,row.2) = item := by
  rcases mem_update h with hrows | hnone
  · obtain ⟨row,hrow,heq⟩ := List.mem_map.mp hrows
    obtain ⟨hmem,hlike⟩ := List.mem_filter.mp hrow
    exact ⟨row,hmem,hlike,heq⟩
  · cases hnone

/-- The table with one row, written for a dataset. -/
def single (dataset key : String) (value : Option String) : MetaTable where
  rows := [(fullKey (some dataset) key,value)]
  unique := List.nodup_singleton _

theorem getMeta_single (d key : String) (value : Option String) :
    (single d key value).getMeta (some d) = [(afterDot (fullKey (some d) key),value)] := by
  simp [getMeta, single, likeText_self, Dict.update, Dict.set]

theorem resetMeta_single {d e k : String}
    (h : likeText (fullKey (some e) k) (d ++ "." ++ "%") = true) (value : Option String) :
    ((single e k value).resetMeta d).entry e k = none := by
  simp [entry, resetMeta, delete, single, h]

/-- The row of a dotted name comes back under a longer key. -/
theorem afterDot_ne {d : String} (h : '.' ∈ d.toList) : afterDot (fullKey (some d) "") ≠ "" := by
  have hsome : d.toList.dropWhile (fun c => c != '.') ≠ [] := by
    intro hnone
    have hall := List.dropWhile_eq_nil_iff.mp hnone '.' h
    simp at hall
  intro heq
  have hdots := congrArg String.toList heq
  simp only [afterDot, toList_fullKey] at hdots
  rw [if_pos (by simp)] at hdots
  cases hdrop : d.toList.dropWhile (fun c => c != '.') with
  | nil => exact hsome hdrop
  | cons c rest => simp [List.dropWhile_append, hdrop] at hdots

end Statements

/-- The metadata of datasets are apart exactly when no name has a dot and no two names meet under
the wildcards and the case folding of LIKE. -/
theorem isolated_iff (names : List String) : Isolated names ↔
    ∀ d ∈ names, '.' ∉ d.toList ∧ ∀ e ∈ names, d ≠ e → nameOverlaps d e = false := by
  constructor
  · intro h d hd
    refine ⟨fun hdot => ?_,fun e he hne => ?_⟩
    · obtain ⟨w,hw,-,hkey,-⟩ := h.get d hd (single d "" none) [⟨some d,"",none⟩] rfl
        (by simpa using hd) _ (by rw [getMeta_single]; exact List.mem_singleton_self _)
      rw [List.mem_singleton.mp hw] at hkey
      exact afterDot_ne hdot hkey.symm
    · rw [Bool.eq_false_iff]
      intro hoverlaps
      obtain ⟨k,hlike⟩ := (overlaps_iff _ _).mp hoverlaps
      have hkey : likeText (fullKey (some e) (String.ofList k)) (d ++ "." ++ "%") = true := by
        rw [likeText_fullKey, String.toList_ofList]
        exact hlike
      have hreset := h.reset d hd e he hne (single e (String.ofList k) none) (String.ofList k)
      rw [resetMeta_single hkey] at hreset
      simp [entry, single, Dict.get?] at hreset
  · intro h
    refine ⟨fun d hd e he hne t => entry_setMeta ((h d hd).2 e he hne) t,
      fun d hd e he hne t => entry_resetMeta ((h d hd).2 e he hne) t,
      fun d hd t written hrows howners item hitem => ?_⟩
    obtain ⟨row,hrow,hlike,heq⟩ := mem_getMeta hitem
    rw [hrows] at hrow
    obtain ⟨w,hw,rfl⟩ := List.mem_map.mp hrow
    obtain ⟨dataset,key,value⟩ := w
    rcases howners _ hw with ⟨hglobal,hkey⟩ | ⟨e,he,hdataset⟩
    · dsimp only at hglobal hkey
      subst hglobal
      have hnot : likeText key (d ++ "." ++ "%") = true := hlike
      rw [globalKey_not_like hkey] at hnot
      cases hnot
    · dsimp only at hdataset
      subst hdataset
      by_cases hde : d = e
      · subst hde
        rw [← heq]
        exact ⟨_,hw,rfl,(afterDot_fullKey (h d hd).1 key).symm,rfl⟩
      · have hnot : likeText (fullKey (some e) key) (d ++ "." ++ "%") = true := hlike
        rw [likeText_of_other ((h d hd).2 e he hde)] at hnot
        cases hnot

/-- Resetting the metadata of one dataset takes those of a dataset whose name differs in the
character that the wildcard stands for. -/
theorem reset_takes_other_dataset : ¬Isolated ["user_groups", "user-groups"] := by
  intro h
  have hreset := h.reset "user_groups" (by simp) "user-groups" (by simp) (by decide)
    (single "user-groups" "schema_hash" (some "1")) "schema_hash"
  rw [resetMeta_single (by decide)] at hreset
  simp [entry, single, Dict.get?] at hreset

/-- Clearing some datasets keeps the metadata of the others. -/
theorem entry_clear {names targets : List String} {e : String} (h : Isolated names)
    (htargets : ∀ d ∈ targets, d ∈ names) (he : e ∈ names) (hother : e ∉ targets)
    (t : MetaTable) (k : String) : (t.clear targets).entry e k = t.entry e k := by
  unfold clear
  induction targets generalizing t with
  | nil => rfl
  | cons d targets ih =>
    have hne : d ≠ e := fun heq => hother (heq ▸ List.mem_cons_self)
    rw [List.foldl_cons, ih (fun d hd => htargets d (.tail _ hd)) fun h => hother (.tail _ h)]
    exact h.reset d (htargets d List.mem_cons_self) e he hne t k

end MetaTable
end NexusEtl
