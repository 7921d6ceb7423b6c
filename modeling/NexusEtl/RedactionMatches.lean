import NexusEtl.LogRedaction

/-!
# What a match of the redaction hides

A match hides a text between quotes, a word or the separator between key and word. Each
time a separator stands right before the hidden part or in it, but for blanks and the
opening quote. A run of letters without separators is therefore kept when the search
begins in it.
-/

set_option autoImplicit false

namespace NexusEtl.TextPattern
open NexusEtl.Library NexusEtl.Library.Substitution

def IsBlank (cs : List Char) : Prop := ∀ c ∈ cs, Text.isSpace c = true

inductive MatchShape : Found Char → Prop
  | quoted (start spaces hidden rest : List Char) (s : Char) (hs : isSeparator s = true)
      (hspaces : IsBlank spaces) (hhidden : '"' ∉ hidden) :
      MatchShape ⟨start ++ s :: (spaces ++ ['"']),hidden,['"'],rest⟩
  | word (start spaces hidden rest : List Char) (s : Char) (hs : isSeparator s = true)
      (hspaces : IsBlank spaces) (hhidden : ∀ c ∈ hidden, inWord c = true) :
      MatchShape ⟨start ++ s :: spaces,hidden,[],rest⟩
  | kept (start lead spaces secret rest : List Char) (s : Char) (hs : isSeparator s = true)
      (hlead : IsBlank lead) (hspaces : IsBlank spaces)
      (hsecret : ∀ c ∈ secret, inWord c = true) :
      MatchShape ⟨start,lead ++ s :: spaces,secret,rest⟩

/-- A matcher whose matches divide the text and have one of the shapes. -/
structure Shaped (find : Option Char → List Char → Option (Found Char)) : Prop where
  splits : Splits find
  shape : ∀ prev cs f, find prev cs = some f → MatchShape f

/-! ## The two patterns -/

theorem isBlank_takeWhile (cs : List Char) : IsBlank (cs.takeWhile Text.isSpace) :=
  fun _ h => List.mem_takeWhile_imp h

theorem takeKey_eq_some {same : Char → Char → Bool} {key cs spelled rest : List Char}
    (h : takeKey same key cs = some (spelled,rest)) : cs = spelled ++ rest := by
  induction key generalizing cs spelled with
  | nil =>
    obtain ⟨rfl,rfl⟩ := Prod.mk.inj (Option.some.inj h)
    rfl
  | cons k key ih =>
    cases cs with
    | nil => cases h
    | cons c cs =>
      rw [takeKey] at h
      split at h
      · obtain ⟨r,hr,heq⟩ := Option.map_eq_some_iff.mp h
        obtain ⟨rfl,rfl⟩ := Prod.mk.inj heq
        rw [List.cons_append, ← ih hr]
      · cases h

theorem takeQuote_append (cs : List Char) : (takeQuote cs).1 ++ (takeQuote cs).2 = cs := by
  unfold takeQuote
  split <;> rfl

theorem takeSeparator_eq_some {cs separator rest : List Char}
    (h : takeSeparator cs = some (separator,rest)) :
    ∃ lead s spaces, separator = lead ++ s :: spaces ∧ isSeparator s = true ∧ IsBlank lead ∧
      IsBlank spaces ∧ cs = separator ++ rest := by
  rw [takeSeparator] at h
  have hcs := List.takeWhile_append_dropWhile (p := Text.isSpace) (l := cs)
  cases hdrop : cs.dropWhile Text.isSpace with
  | nil =>
    rw [hdrop] at h
    cases h
  | cons s tail =>
    rw [hdrop] at h hcs
    dsimp only at h
    split at h
    · rename_i hs
      obtain ⟨rfl,rfl⟩ := Prod.mk.inj (Option.some.inj h)
      refine ⟨_,s,_,rfl,hs,isBlank_takeWhile cs,isBlank_takeWhile tail,?_⟩
      rw [List.append_assoc, List.cons_append, List.takeWhile_append_dropWhile, hcs]
    · cases h

theorem takeQuoted_eq_some {cs secret rest : List Char}
    (h : takeQuoted cs = some (secret,rest)) :
    cs = '"' :: (secret ++ '"' :: rest) ∧ '"' ∉ secret := by
  unfold takeQuoted at h
  split at h
  · rename_i tail
    split at h
    · rename_i after hdrop
      obtain ⟨rfl,rfl⟩ := Prod.mk.inj (Option.some.inj h)
      have hcs := List.takeWhile_append_dropWhile (p := inQuotes) (l := tail)
      rw [hdrop] at hcs
      refine ⟨by rw [hcs],fun hmem => ?_⟩
      exact absurd (List.mem_takeWhile_imp hmem) (by decide)
    · cases h
  · cases h

theorem quotedFrom_eq_some {same : Char → Char → Bool} {key lead cs : List Char}
    {f : Found Char} (h : quotedFrom same key lead cs = some f) :
    lead ++ cs = f.whole ++ f.rest ∧ f.whole ≠ [] ∧ MatchShape f := by
  unfold quotedFrom at h
  split at h
  · cases h
  · rename_i spelled tail hkey
    split at h
    · cases h
    · rename_i separator behind hseparator
      split at h
      · cases h
      · rename_i secret rest hquoted
        obtain rfl := Option.some.inj h
        obtain ⟨blanks,s,spaces,rfl,hs,_,hspaces,htail⟩ := takeSeparator_eq_some hseparator
        obtain ⟨hbehind,hsecret⟩ := takeQuoted_eq_some hquoted
        have hquote := takeQuote_append tail
        rw [htail, hbehind] at hquote
        have hcs : cs = spelled ++ ((takeQuote tail).1 ++ (blanks ++ s :: spaces ++
            '"' :: (secret ++ '"' :: rest))) := by
          rw [hquote]
          exact takeKey_eq_some hkey
        refine ⟨?_,by simp [Found.whole],?_⟩
        · rw [hcs]
          simp [Found.whole]
        · have hshape := MatchShape.quoted (lead ++ (spelled ++ ((takeQuote tail).1 ++ blanks)))
            spaces secret rest s hs hspaces hsecret
          simpa using hshape

theorem quoted_shaped (tables : CharTables) (key : List Char) : Shaped (quoted tables key) := by
  have hboth : ∀ prev cs f, quoted tables key prev cs = some f →
      cs = f.whole ++ f.rest ∧ f.whole ≠ [] ∧ MatchShape f := by
    intro prev cs f h
    unfold quoted at h
    split at h
    · split at h
      · rename_i found hfound
        obtain rfl := Option.some.inj h
        exact quotedFrom_eq_some hfound
      · exact quotedFrom_eq_some h
    · exact quotedFrom_eq_some h
  exact ⟨fun prev cs f h => ⟨(hboth prev cs f h).1,(hboth prev cs f h).2.1⟩,
    fun prev cs f h => (hboth prev cs f h).2.2⟩

theorem bare_shaped (tables : CharTables) (key : List Char) : Shaped (bare tables key) := by
  have hboth : ∀ prev cs f, bare tables key prev cs = some f →
      cs = f.whole ++ f.rest ∧ f.whole ≠ [] ∧ MatchShape f := by
    intro prev cs f h
    unfold bare at h
    split at h
    · split at h
      · cases h
      · rename_i spelled tail hkey
        split at h
        · split at h
          · cases h
          · rename_i separator behind hseparator
            obtain ⟨lead,s,spaces,rfl,hs,hlead,hspaces,htail⟩ := takeSeparator_eq_some hseparator
            have hword : ∀ c ∈ behind.takeWhile inWord, inWord c = true :=
              fun c hc => List.mem_takeWhile_imp hc
            have hbehind := List.takeWhile_append_dropWhile (p := inWord) (l := behind)
            have hcs : cs = spelled ++ ((lead ++ s :: spaces) ++
                (behind.takeWhile inWord ++ behind.dropWhile inWord)) := by
              rw [takeKey_eq_some hkey, htail, hbehind]
            dsimp only at h
            split at h
            · cases h
            · split at h
              · obtain rfl := Option.some.inj h
                refine ⟨?_,by simp [Found.whole],.kept _ _ _ _ _ s hs hlead hspaces hword⟩
                rw [hcs]
                simp [Found.whole]
              · obtain rfl := Option.some.inj h
                refine ⟨?_,by simp [Found.whole],?_⟩
                · rw [hcs]
                  simp [Found.whole]
                · have hshape := MatchShape.word (spelled ++ lead) spaces
                    (behind.takeWhile inWord) (behind.dropWhile inWord) s hs hspaces hword
                  simpa using hshape
        · cases h
    · cases h
  exact ⟨fun prev cs f h => ⟨(hboth prev cs f h).1,(hboth prev cs f h).2.1⟩,
    fun prev cs f h => (hboth prev cs f h).2.2⟩

/-! ## Runs without separators -/

/-- Letters that are no separators, the last one no blank. -/
structure Run (r : List Char) : Prop where
  separators : ∀ c ∈ r, isSeparator c = false
  last : ∃ front d, r = front ++ [d] ∧ Text.isSpace d = false

theorem Run.ne_nil {r : List Char} (h : Run r) : r ≠ [] := by
  obtain ⟨front,d,rfl,_⟩ := h.last
  simp

theorem Run.tail {c : Char} {r : List Char} (h : Run (c::r)) (hne : r ≠ []) : Run r := by
  refine ⟨fun d hd => h.separators d (List.mem_cons_of_mem _ hd),?_⟩
  obtain ⟨front,d,heq,hd⟩ := h.last
  cases front with
  | nil => exact absurd (List.cons.inj heq).2 hne
  | cons a front => exact ⟨front,d,(List.cons.inj heq).2,hd⟩

/-- A separator stands on one side of a run. -/
theorem separator_side {x y a r b : List Char} {s : Char} (hs : isSeparator s = true)
    (hr : ∀ c ∈ r, isSeparator c = false) (h : x ++ s :: y = a ++ (r ++ b)) :
    (∃ a', a = x ++ s :: a' ∧ y = a' ++ (r ++ b)) ∨
      ∃ b', x = a ++ (r ++ b') ∧ b = b' ++ s :: y := by
  have hnot : s ∉ r := fun hmem => by
    rw [hr s hmem] at hs
    cases hs
  rcases List.append_eq_append_iff.mp h with ⟨a',rfl,hy⟩ | ⟨x',rfl,hrb⟩
  · cases a' with
    | nil =>
      cases r with
      | nil => exact .inr ⟨[],by simp,hy.symm⟩
      | cons c r =>
        rw [List.nil_append, List.cons_append] at hy
        rw [(List.cons.inj hy).1] at hnot
        exact absurd List.mem_cons_self hnot
    | cons c a' =>
      rw [List.cons_append] at hy
      obtain ⟨rfl,htail⟩ := List.cons.inj hy
      exact .inl ⟨a',rfl,htail⟩
  · rcases List.append_eq_append_iff.mp hrb with ⟨b',rfl,hb⟩ | ⟨r',rfl,hsy⟩
    · exact .inr ⟨b',rfl,hb⟩
    · cases r' with
      | nil => exact .inr ⟨[],by simp,hsy.symm⟩
      | cons c r' =>
        rw [List.cons_append] at hsy
        rw [(List.cons.inj hsy).1] at hnot
        exact absurd (List.mem_append_right _ List.mem_cons_self) hnot

/-- Blanks behind a run do not reach into it. -/
theorem blanks_behind {x spaces a r b : List Char} (hspaces : IsBlank spaces) (hr : Run r)
    (h : x ++ spaces = a ++ (r ++ b)) : ∃ b', x = a ++ (r ++ b') := by
  obtain ⟨front,d,rfl,hd⟩ := hr.last
  have hassoc : x ++ spaces = (a ++ front) ++ d :: b := by
    rw [h]
    simp
  rcases List.append_eq_append_iff.mp hassoc with ⟨a',_,hblank⟩ | ⟨x',rfl,hx⟩
  · have hmem : d ∈ spaces := by
      rw [hblank]
      simp
    rw [hspaces d hmem] at hd
    cases hd
  · cases x' with
    | nil =>
      have hmem : d ∈ spaces := by
        rw [← List.nil_append spaces, ← hx]
        exact List.mem_cons_self
      rw [hspaces d hmem] at hd
      cases hd
    | cons e x' =>
      obtain ⟨rfl,_⟩ := List.cons.inj hx
      exact ⟨x',by simp⟩

/-- A match that begins in a run keeps the rest of the run. -/
theorem MatchShape.run_before {f : Found Char} (hshape : MatchShape f) {r b : List Char}
    (hr : Run r) (h : f.whole ++ f.rest = r ++ b) : ∃ b', f.before = r ++ b' := by
  cases hshape with
  | quoted start spaces hidden rest s hs hspaces hhidden =>
    have hsplit : start ++ s :: (spaces ++ '"' :: (hidden ++ '"' :: rest)) = [] ++ (r ++ b) := by
      rw [List.nil_append, ← h]
      simp [Found.whole]
    rcases separator_side hs hr.separators hsplit with ⟨a',ha,_⟩ | ⟨b',hstart,_⟩
    · exact absurd ha (by simp)
    · exact ⟨b' ++ s :: (spaces ++ ['"']),by simp [hstart]⟩
  | word start spaces hidden rest s hs hspaces hhidden =>
    have hsplit : start ++ s :: (spaces ++ (hidden ++ rest)) = [] ++ (r ++ b) := by
      rw [List.nil_append, ← h]
      simp [Found.whole]
    rcases separator_side hs hr.separators hsplit with ⟨a',ha,_⟩ | ⟨b',hstart,_⟩
    · exact absurd ha (by simp)
    · exact ⟨b' ++ s :: spaces,by simp [hstart]⟩
  | kept start lead spaces secret rest s hs hlead hspaces hsecret =>
    have hsplit : (start ++ lead) ++ s :: (spaces ++ (secret ++ rest)) = [] ++ (r ++ b) := by
      rw [List.nil_append, ← h]
      simp [Found.whole]
    rcases separator_side hs hr.separators hsplit with ⟨a',ha,_⟩ | ⟨b',hstart,_⟩
    · exact absurd ha (by simp)
    · obtain ⟨b'',hbefore⟩ := blanks_behind hlead hr hstart
      exact ⟨b'',hbefore⟩

/-- A run is kept when the search begins in it. -/
theorem sub_run {find : Option Char → List Char → Option (Found Char)} (hfind : Shaped find)
    {mark r : List Char} (hr : Run r) (prev : Option Char) (b : List Char) :
    ∃ b', sub find mark prev 0 (r ++ b) = r ++ b' := by
  induction r generalizing prev with
  | nil => exact absurd rfl hr.ne_nil
  | cons c r ih =>
    cases hfound : find prev (c::r ++ b) with
    | none =>
      rw [List.cons_append] at hfound ⊢
      rw [sub_none hfound]
      by_cases hnil : r = []
      · rw [hnil]
        exact ⟨_,rfl⟩
      · obtain ⟨b',hb⟩ := ih (hr.tail hnil) (some c)
        exact ⟨b',by rw [hb, List.cons_append]⟩
    | some f =>
      obtain ⟨prev',hsub⟩ := @exists_sub_found _ _ mark hfind.splits _ _ _ hfound
      obtain ⟨b',hbefore⟩ :=
        (hfind.shape _ _ _ hfound).run_before hr (hfind.splits _ _ _ hfound).1.symm
      exact ⟨_,by rw [hsub, hbefore, List.append_assoc]⟩

end NexusEtl.TextPattern

namespace NexusEtl.LogRedactionEngine
open NexusEtl.TextPattern

theorem patterns_shaped (engine : LogRedactionEngine) : ∀ p ∈ engine.patterns, Shaped p := by
  intro p hp
  obtain ⟨key,_,hmem⟩ := List.mem_flatMap.mp hp
  rcases List.mem_cons.mp hmem with rfl | hmem
  · exact quoted_shaped _ _
  · rw [List.mem_singleton.mp hmem]
    exact bare_shaped _ _

end NexusEtl.LogRedactionEngine
