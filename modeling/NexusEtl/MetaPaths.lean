import NexusEtl.Mapper
import Mathlib.Data.List.Infix

/-!
# Dotted metadata paths

A metadata rule writes its value at a dotted path and makes dictionaries on the way. It
raises when a value of another kind stands there. For a sequence of writes this is said
by the paths and values alone: what is held at a path is what the last write above it
brought.
-/

set_option autoImplicit false

namespace NexusEtl
open NexusEtl.Library

namespace Value

def IsDict (v : Value) : Prop := ∃ fields, v = .dict fields

/-- The value at a path inside a value. -/
def readIn : Value → List String → Option Value
  | v, [] => some v
  | .dict fields, key::keys => match Dict.get? fields key with
    | some inner => readIn inner keys
    | none => none
  | _, _::_ => none

theorem readIn_key (fields : Fields) (key : String) :
    readIn (.dict fields) [key] = Dict.get? fields key := by
  rw [readIn]
  cases Dict.get? fields key <;> rfl

end Value

namespace MapperCore
open Value (IsDict readIn readIn_key)

/-- What `setdefault` gives for a key on the way. -/
def under (fields : Fields) (key : String) : Value := (Dict.get? fields key).getD (.dict [])

theorem readIn_under (fields : Fields) (key : String) {keys : List String} (h : keys ≠ []) :
    readIn (.dict fields) (key::keys) = readIn (under fields key) keys := by
  obtain ⟨next,rest,rfl⟩ := List.exists_cons_of_ne_nil h
  rw [readIn, under]
  cases Dict.get? fields key with
  | none => rfl
  | some inner => rfl

theorem get?_of_under {fields : Fields} {key : String} (h : ¬IsDict (under fields key)) :
    Dict.get? fields key = some (under fields key) := by
  unfold under at h ⊢
  cases hget : Dict.get? fields key with
  | none =>
    rw [hget] at h
    exact absurd ⟨[],rfl⟩ h
  | some inner => rfl

/-- A write below a key goes on in the dictionary under it, or it raises there. -/
theorem setMeta_cons (fields : Fields) (key : String) {keys : List String} (h : keys ≠ [])
    (v : Value) :
    (∃ inner, under fields key = .dict inner ∧ ((∃ exc, setMeta inner keys v = .error exc ∧
        setMeta fields (key::keys) v = .error exc) ∨
      ∃ inner', setMeta inner keys v = .ok inner' ∧
        setMeta fields (key::keys) v = .ok (Dict.set fields key (.dict inner')))) ∨
    ¬IsDict (under fields key) ∧ ∃ exc, setMeta fields (key::keys) v = .error exc := by
  obtain ⟨next,rest,rfl⟩ := List.exists_cons_of_ne_nil h
  have hnot {w : Value} (hw : ∀ inner, w ≠ .dict inner) : ¬IsDict w :=
    fun ⟨inner,he⟩ => hw inner he
  cases hunder : under fields key with
  | dict inner =>
    refine Or.inl ⟨inner,rfl,?_⟩
    rw [under] at hunder
    rw [setMeta, hunder]
    cases hinner : setMeta inner (next::rest) v with
    | error exc => exact Or.inl ⟨exc,rfl,by simp only [hinner]⟩
    | ok inner' => exact Or.inr ⟨inner',rfl,by simp only [hinner]⟩
  | _ =>
    refine Or.inr ⟨hnot (by simp),?_⟩
    rw [under] at hunder
    rw [setMeta, hunder]
    dsimp only
    split
    · exact ⟨_,rfl⟩
    · exact ⟨_,rfl⟩

/-- A write succeeds when only dictionaries stand above its path. -/
theorem setMeta_ok_iff (fields : Fields) (path : List String) (v : Value) :
    (∃ written, setMeta fields path v = .ok written) ↔
      ∀ above, above ≠ [] → above <+: path → above ≠ path →
        ∀ w, readIn (.dict fields) above = some w → IsDict w := by
  induction path generalizing fields with
  | nil => exact iff_of_true ⟨fields,rfl⟩ fun above hne habove =>
      absurd (List.prefix_nil.mp habove) hne
  | cons key keys ih =>
    by_cases hkeys : keys = []
    · subst hkeys
      refine iff_of_true ⟨_,rfl⟩ fun above hne habove hpath => ?_
      obtain ⟨first,rest,rfl⟩ := List.exists_cons_of_ne_nil hne
      obtain ⟨rfl,hrest⟩ := List.cons_prefix_cons.mp habove
      exact absurd (by rw [List.prefix_nil.mp hrest]) hpath
    · rcases setMeta_cons fields key hkeys v with ⟨inner,hunder,hcases⟩ | ⟨hnot,exc,herror⟩
      · have hsame : (∃ written, setMeta fields (key::keys) v = .ok written) ↔
            ∃ written, setMeta inner keys v = .ok written := by
          rcases hcases with ⟨exc,hinner,hwhole⟩ | ⟨inner',hinner,hwhole⟩
          · rw [hinner, hwhole]
          · rw [hinner, hwhole]
            exact iff_of_true ⟨_,rfl⟩ ⟨_,rfl⟩
        rw [hsame, ih inner]
        constructor
        · intro h above hne habove hpath w hw
          obtain ⟨first,rest,rfl⟩ := List.exists_cons_of_ne_nil hne
          obtain ⟨rfl,hrest⟩ := List.cons_prefix_cons.mp habove
          by_cases hnil : rest = []
          · subst hnil
            rw [readIn_key] at hw
            rw [under, hw] at hunder
            exact ⟨inner,hunder⟩
          · rw [readIn_under fields first hnil, hunder] at hw
            exact h rest hnil hrest (fun he => hpath (by rw [he])) w hw
        · intro h above hne habove hpath w hw
          apply h (key::above) (List.cons_ne_nil _ _) (List.cons_prefix_cons.mpr ⟨rfl,habove⟩)
            (fun he => hpath (List.cons.inj he).2)
          rw [readIn_under fields key hne, hunder, hw]
      · refine iff_of_false (fun ⟨written,hw⟩ => ?_) fun h => ?_
        · rw [herror] at hw
          cases hw
        · refine hnot (h [key] (List.cons_ne_nil _ _)
            (List.cons_prefix_cons.mpr ⟨rfl,List.nil_prefix⟩) ?_ _ ?_)
          · exact fun he => hkeys (List.cons.inj he).2.symm
          · rw [readIn_key, get?_of_under hnot]

theorem readIn_setMeta_below {fields written : Fields} {path : List String} {v : Value}
    (h : setMeta fields path v = .ok written) (hpath : path ≠ []) (rest : List String) :
    readIn (.dict written) (path ++ rest) = readIn v rest := by
  induction path generalizing fields written with
  | nil => exact absurd rfl hpath
  | cons key keys ih =>
    by_cases hkeys : keys = []
    · subst hkeys
      cases h
      rw [List.singleton_append, readIn, Dict.get?_set_self]
    · rcases setMeta_cons fields key hkeys v with
        ⟨inner,-,⟨exc,-,hwhole⟩ | ⟨inner',hinner,hwhole⟩⟩ | ⟨-,exc,hwhole⟩
      · rw [hwhole] at h
        cases h
      · rw [hwhole] at h
        cases h
        rw [List.cons_append, readIn, Dict.get?_set_self]
        exact ih hinner hkeys
      · rw [hwhole] at h
        cases h

theorem readIn_setMeta_above {fields written : Fields} {path above : List String} {v : Value}
    (h : setMeta fields path v = .ok written) (hne : above ≠ []) (habove : above <+: path)
    (hpath : above ≠ path) : ∃ inner, readIn (.dict written) above = some (.dict inner) := by
  induction path generalizing fields written above with
  | nil => exact absurd (List.prefix_nil.mp habove) hne
  | cons key keys ih =>
    obtain ⟨first,rest,rfl⟩ := List.exists_cons_of_ne_nil hne
    obtain ⟨rfl,hrest⟩ := List.cons_prefix_cons.mp habove
    have hkeys : keys ≠ [] := by
      rintro rfl
      exact hpath (by rw [List.prefix_nil.mp hrest])
    rcases setMeta_cons fields first hkeys v with
      ⟨inner,-,⟨exc,-,hwhole⟩ | ⟨inner',hinner,hwhole⟩⟩ | ⟨-,exc,hwhole⟩
    · rw [hwhole] at h
      cases h
    · rw [hwhole] at h
      cases h
      by_cases hnil : rest = []
      · subst hnil
        exact ⟨inner',by rw [readIn_key, Dict.get?_set_self]⟩
      · rw [readIn, Dict.get?_set_self]
        exact ih hinner hnil hrest fun he => hpath (by rw [he])
    · rw [hwhole] at h
      cases h

/-- A write changes nothing beside its path. -/
theorem readIn_setMeta_beside {fields written : Fields} {path other : List String} {v : Value}
    (h : setMeta fields path v = .ok written) (habove : ¬other <+: path)
    (hbelow : ¬path <+: other) : readIn (.dict written) other = readIn (.dict fields) other := by
  induction path generalizing fields written other with
  | nil => exact absurd List.nil_prefix hbelow
  | cons key keys ih =>
    obtain ⟨first,rest,rfl⟩ := List.exists_cons_of_ne_nil fun he : other = [] =>
      habove (he ▸ List.nil_prefix)
    by_cases hfirst : key = first
    · subst hfirst
      have habove' : ¬rest <+: keys := fun hp => habove (List.cons_prefix_cons.mpr ⟨rfl,hp⟩)
      have hbelow' : ¬keys <+: rest := fun hp => hbelow (List.cons_prefix_cons.mpr ⟨rfl,hp⟩)
      have hkeys : keys ≠ [] := fun he => hbelow' (he ▸ List.nil_prefix)
      have hrest : rest ≠ [] := fun he => habove' (he ▸ List.nil_prefix)
      rcases setMeta_cons fields key hkeys v with
        ⟨inner,hunder,⟨exc,-,hwhole⟩ | ⟨inner',hinner,hwhole⟩⟩ | ⟨-,exc,hwhole⟩
      · rw [hwhole] at h
        cases h
      · rw [hwhole] at h
        cases h
        rw [readIn, Dict.get?_set_self, readIn_under fields key hrest, hunder]
        exact ih hinner habove' hbelow'
      · rw [hwhole] at h
        cases h
    · have hget : ∃ w, written = Dict.set fields key w := by
        by_cases hkeys : keys = []
        · subst hkeys
          cases h
          exact ⟨v,rfl⟩
        · rcases setMeta_cons fields key hkeys v with
            ⟨inner,-,⟨exc,-,hwhole⟩ | ⟨inner',-,hwhole⟩⟩ | ⟨-,exc,hwhole⟩
          · rw [hwhole] at h
            cases h
          · rw [hwhole] at h
            cases h
            exact ⟨_,rfl⟩
          · rw [hwhole] at h
            cases h
      obtain ⟨w,rfl⟩ := hget
      rw [readIn, readIn, Dict.get?_set_ne fields w hfirst]

/-! ## Sequences of writes -/

abbrev MetaWrite := List String × Value

def setAll : Fields → List MetaWrite → Except PyException Fields
  | fields, [] => .ok fields
  | fields, write::writes => match setMeta fields write.1 write.2 with
    | .ok written => setAll written writes
    | .error exc => .error exc

/-- What the last write at or above a path has brought there. -/
def heldAt (writes : List MetaWrite) (path : List String) : Option Value :=
  (writes.reverse.find? fun write => write.1.isPrefixOf path).bind fun write =>
    readIn write.2 (path.drop write.1.length)

/-- Above the path of the write earlier writes have left dictionaries only. -/
def WayClear (earlier : List MetaWrite) (write : MetaWrite) : Prop :=
  ∀ above, above ≠ [] → above <+: write.1 → above ≠ write.1 →
    ∀ w, heldAt earlier above = some w → IsDict w

/-- No write goes through a value, other than a dictionary, that an earlier one has brought. -/
def PathsClear (writes : List MetaWrite) : Prop :=
  ∀ earlier write later, writes = earlier ++ write :: later → WayClear earlier write

theorem setAll_append (fields : Fields) (writes : List MetaWrite) (write : MetaWrite) :
    setAll fields (writes ++ [write]) = match setAll fields writes with
      | .ok written => setMeta written write.1 write.2
      | .error exc => .error exc := by
  induction writes generalizing fields with
  | nil =>
    simp only [List.nil_append, setAll]
    cases setMeta fields write.1 write.2 <;> rfl
  | cons first writes ih =>
    rw [List.cons_append, setAll, setAll]
    cases setMeta fields first.1 first.2 with
    | error exc => rfl
    | ok written => exact ih written

theorem heldAt_append (writes : List MetaWrite) (write : MetaWrite) (path : List String) :
    heldAt (writes ++ [write]) path =
      if write.1 <+: path then readIn write.2 (path.drop write.1.length)
      else heldAt writes path := by
  rw [heldAt, List.reverse_append, List.reverse_singleton, List.singleton_append,
    List.find?_cons]
  by_cases h : write.1 <+: path
  · rw [if_pos h, List.isPrefixOf_iff_prefix.mpr h]
    rfl
  · have hfalse : write.1.isPrefixOf path = false :=
      Bool.eq_false_iff.mpr fun ht => h (List.isPrefixOf_iff_prefix.mp ht)
    rw [if_neg h, hfalse]
    rfl

theorem pathsClear_append {writes : List MetaWrite} {write : MetaWrite} :
    PathsClear (writes ++ [write]) ↔ PathsClear writes ∧ WayClear writes write := by
  constructor
  · intro h
    refine ⟨fun earlier other later hsplit => ?_,h writes write [] rfl⟩
    exact h earlier other (later ++ [write]) (by rw [hsplit]; simp)
  · rintro ⟨hwrites,hwrite⟩ earlier other later hsplit
    rcases later.eq_nil_or_concat' with rfl | ⟨later,last,rfl⟩
    · obtain ⟨rfl,hlast⟩ := List.append_inj' hsplit rfl
      rw [← List.singleton_inj.mp hlast]
      exact hwrite
    · rw [← List.cons_append, ← List.append_assoc] at hsplit
      obtain ⟨rfl,-⟩ := List.append_inj' hsplit rfl
      exact hwrites earlier other later rfl

/-- After the writes the same values that are no dictionaries stand in the metadata. -/
theorem readIn_setAll {writes : List MetaWrite} (hne : ∀ write ∈ writes, write.1 ≠ [])
    {written : Fields} (h : setAll [] writes = .ok written) {path : List String}
    (hpath : path ≠ []) {w : Value} (hw : ¬IsDict w) :
    readIn (.dict written) path = some w ↔ heldAt writes path = some w := by
  induction writes using List.reverseRecOn generalizing written path w with
  | nil =>
    cases h
    obtain ⟨key,keys,rfl⟩ := List.exists_cons_of_ne_nil hpath
    exact iff_of_false (fun he => nomatch he) (fun he => nomatch he)
  | append_singleton writes write ih =>
    have hwrites := fun other hother => hne other (List.mem_append_left _ hother)
    have hwrite := hne write (List.mem_append_right _ (List.mem_singleton_self _))
    rw [setAll_append] at h
    cases hbefore : setAll [] writes with
    | error exc =>
      rw [hbefore] at h
      cases h
    | ok before =>
      rw [hbefore] at h
      rw [heldAt_append]
      by_cases hbelow : write.1 <+: path
      · obtain ⟨rest,rfl⟩ := hbelow
        rw [if_pos (List.prefix_append _ _), List.drop_left, readIn_setMeta_below h hwrite]
      · rw [if_neg hbelow, ← ih hwrites hbefore hpath hw]
        by_cases habove : path <+: write.1
        · have hne' : path ≠ write.1 := fun he => hbelow (he ▸ List.prefix_refl _)
          obtain ⟨inner,hinner⟩ := readIn_setMeta_above h hpath habove hne'
          have hdicts := (setMeta_ok_iff before write.1 write.2).mp ⟨written,h⟩ path hpath
            habove hne'
          refine iff_of_false (fun he => ?_) fun he => hw (hdicts w he)
          rw [hinner] at he
          exact hw ⟨inner,(Option.some.inj he).symm⟩
        · rw [readIn_setMeta_beside h habove hbelow]

/-- All writes succeed exactly when no path runs through another write's plain value. -/
theorem setAll_ok_iff {writes : List MetaWrite} (hne : ∀ write ∈ writes, write.1 ≠ []) :
    (∃ written, setAll [] writes = .ok written) ↔ PathsClear writes := by
  induction writes using List.reverseRecOn with
  | nil => exact iff_of_true ⟨[],rfl⟩ fun earlier write later h => by cases earlier <;> cases h
  | append_singleton writes write ih =>
    have hwrites := fun other hother => hne other (List.mem_append_left _ hother)
    rw [pathsClear_append, ← ih hwrites, setAll_append]
    cases hbefore : setAll [] writes with
    | error exc => exact iff_of_false (fun ⟨_,he⟩ => nomatch he) fun ⟨⟨_,he⟩,_⟩ => nomatch he
    | ok before =>
      have hway : WayClear writes write ↔ ∃ written, setMeta before write.1 write.2 = .ok written := by
        rw [setMeta_ok_iff]
        refine forall_congr' fun above => forall_congr' fun hnil => forall_congr' fun _ =>
          forall_congr' fun _ => forall_congr' fun w => ?_
        by_cases hw : IsDict w
        · exact iff_of_true (fun _ => hw) fun _ => hw
        · rw [readIn_setAll hwrites hbefore hnil hw]
      rw [hway]
      exact ⟨fun h => ⟨⟨before,rfl⟩,h⟩,fun h => h.2⟩

end MapperCore
end NexusEtl
