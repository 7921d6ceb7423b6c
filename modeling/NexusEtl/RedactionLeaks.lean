import NexusEtl.JsonText
import NexusEtl.RedactionMatches

/-!
# Secrets in texts

A secret may hold quotes and blanks. Each pass of a pattern gets past one quote of the
secret at most, so a secret with more quotes than there are patterns shows its last word
in every text. The redaction of an event is the same for every secret exactly where no
text outside the values of the policy's keys shows the secret.
-/

set_option autoImplicit false

namespace NexusEtl
open NexusEtl.Library NexusEtl.Library.Substitution

namespace TextPattern

/-! ## Guarded words -/

/-- A letter that is no blank, no separator and no quote. -/
def isSolid (c : Char) : Bool := !Text.isSpace c && !isSeparator c && c != '"'

/-- What stands before a quote of the secret. -/
structure Escape (e : List Char) : Prop where
  separators : ∀ c ∈ e, isSeparator c = false
  quotes : '"' ∉ e

/-- So many quotes, each behind a blank, and a word. -/
def guarded (e : List Char) : Nat → List Char → List Char
  | 0, word => ' ' :: word
  | n+1, word => ' ' :: (e ++ '"' :: 'y' :: guarded e n word)

/-- A word of the letter `x`. -/
def longWord (length : Nat) : List Char := List.replicate (length+1) 'x'

theorem guarded_separators {e : List Char} (he : Escape e) (n length : Nat) :
    ∀ c ∈ guarded e n (longWord length), isSeparator c = false := by
  induction n with
  | zero =>
    intro c hc
    rcases List.mem_cons.mp hc with rfl | hc
    · decide
    · rw [List.eq_of_mem_replicate hc]
      decide
  | succ n ih =>
    intro c hc
    simp only [guarded, List.mem_cons, List.mem_append] at hc
    rcases hc with rfl | hc | rfl | rfl | hc
    · decide
    · exact he.separators c hc
    · decide
    · decide
    · exact ih c hc

theorem guarded_last (e : List Char) (n length : Nat) :
    ∃ front, guarded e n (longWord length) = front ++ ['x'] := by
  induction n with
  | zero =>
    refine ⟨' ' :: List.replicate length 'x',?_⟩
    rw [guarded, longWord, List.replicate_succ', List.cons_append]
  | succ n ih =>
    obtain ⟨front,hfront⟩ := ih
    exact ⟨' ' :: (e ++ '"' :: 'y' :: front),by simp [guarded, hfront]⟩

theorem run_guarded {e : List Char} (he : Escape e) (n length : Nat) :
    Run (guarded e n (longWord length)) := by
  obtain ⟨front,hfront⟩ := guarded_last e n length
  exact ⟨guarded_separators he n length,front,'x',hfront,by decide⟩

theorem Run.cons {c : Char} {r : List Char} (hc : isSeparator c = false) (h : Run r) :
    Run (c::r) := by
  obtain ⟨front,d,rfl,hd⟩ := h.last
  refine ⟨?_,c::front,d,rfl,hd⟩
  intro a ha
  rcases List.mem_cons.mp ha with rfl | ha
  · exact hc
  · exact h.separators a ha

theorem isSolid_iff {c : Char} : isSolid c = true ↔
    Text.isSpace c = false ∧ isSeparator c = false ∧ c ≠ '"' := by
  simp [isSolid, and_assoc]

/-- The first occurrence of a letter divides a list in one way. -/
theorem first_unique {q : Char} {a b r s : List Char} (ha : q ∉ a) (hb : q ∉ b)
    (h : a ++ q :: r = b ++ q :: s) : a = b ∧ r = s := by
  induction a generalizing b with
  | nil =>
    cases b with
    | nil => exact ⟨rfl,(List.cons.inj h).2⟩
    | cons d b =>
      rw [(List.cons.inj h).1] at hb
      exact absurd List.mem_cons_self hb
  | cons c a ih =>
    cases b with
    | nil =>
      rw [(List.cons.inj h).1] at ha
      exact absurd List.mem_cons_self ha
    | cons d b =>
      obtain ⟨rfl,htail⟩ := List.cons.inj h
      obtain ⟨rfl,hrest⟩ := ih (fun hm => ha (List.mem_cons_of_mem _ hm))
        (fun hm => hb (List.mem_cons_of_mem _ hm)) htail
      exact ⟨rfl,hrest⟩

/-- Letters of one kind before a letter that is not of it end there at the latest. -/
theorem prefix_side {p : Char → Bool} {x y a : List Char} {c : Char} {b : List Char}
    (hx : ∀ d ∈ x, p d = true) (hc : p c = false) (h : x ++ y = a ++ c :: b) :
    ∃ a', a = x ++ a' ∧ y = a' ++ c :: b := by
  rcases List.append_eq_append_iff.mp h with ⟨a',ha,hy⟩ | ⟨x',rfl,hcb⟩
  · exact ⟨a',ha,hy⟩
  · cases x' with
    | nil => exact ⟨[],by simp,by simpa using hcb.symm⟩
    | cons d x' =>
      have hpd := hx d (List.mem_append_right _ List.mem_cons_self)
      rw [← (List.cons.inj hcb).1, hc] at hpd
      cases hpd

/-- The text has a guarded word behind a solid letter. -/
def Guards (e word : List Char) (n : Nat) (cs : List Char) : Prop :=
  ∃ start c rest, isSolid c = true ∧ cs = start ++ c :: (guarded e n word ++ rest)

theorem guarded_cons (e : List Char) (n : Nat) (word : List Char) :
    ∃ tail, guarded e n word = ' ' :: tail := by
  cases n with
  | zero => exact ⟨_,rfl⟩
  | succ n => exact ⟨_,rfl⟩

/-- A hidden word before a guarded word ends before it or with its solid letter. -/
theorem word_side {hidden rest a b : List Char} {c : Char} {e word : List Char} {n : Nat}
    (hhidden : ∀ d ∈ hidden, inWord d = true)
    (h : hidden ++ rest = a ++ c :: (guarded e n word ++ b)) :
    (∃ a', a = hidden ++ a' ∧ rest = a' ++ c :: (guarded e n word ++ b)) ∨
      hidden = a ++ [c] ∧ rest = guarded e n word ++ b := by
  obtain ⟨tail,htail⟩ := guarded_cons e n word
  have hblank : inWord ' ' = false := by decide
  have hassoc : hidden ++ rest = (a ++ [c]) ++ ' ' :: (tail ++ b) := by
    rw [h, htail]
    simp
  obtain ⟨a',ha,hrest⟩ := prefix_side hhidden hblank hassoc
  rcases List.eq_nil_or_concat a' with rfl | ⟨front,d,rfl⟩
  · refine .inr ⟨by simpa using ha.symm,?_⟩
    rw [hrest, htail]
    rfl
  · rw [List.concat_eq_append, ← List.append_assoc] at ha
    obtain ⟨ha,hd⟩ := List.append_inj' ha rfl
    refine .inl ⟨front,ha,?_⟩
    rw [hrest, htail, List.concat_eq_append, ← (List.cons.inj hd).1]
    simp

section
variable {e : List Char} {n length : Nat} {a b : List Char} {c : Char}

/-- The match keeps the guarded word before what it hides. -/
def KeptBefore (e : List Char) (n length : Nat) (a : List Char) (c : Char) (f : Found Char) :
    Prop :=
  ∃ b', f.before = a ++ c :: (guarded e n (longWord length) ++ b')

/-- The match ends before the guarded word. -/
def LeftBehind (e : List Char) (n length : Nat) (a b : List Char) (c : Char) (f : Found Char) :
    Prop :=
  ∃ a', a'.length < a.length ∧ f.rest = a' ++ c :: (guarded e n (longWord length) ++ b)

/-- The match touches the guarded word, which keeps so many quotes. -/
def Touched (e : List Char) (n length : Nat) (b : List Char) (f : Found Char) : Prop :=
  ∃ r start d m, Run r ∧ f.rest = r ++ b ∧ isSolid d = true ∧ n ≤ m ∧
    f.before ++ (redactionMark ++ (f.after ++ r)) = start ++ d :: guarded e m (longWord length)

theorem run_solid (he : Escape e) (hc : isSolid c = true) :
    Run (c :: guarded e n (longWord length)) :=
  (run_guarded he n length).cons (isSolid_iff.mp hc).2.1

theorem meets_quoted (he : Escape e) (hc : isSolid c = true) {start spaces hidden rest : List Char}
    {s : Char} (hs : isSeparator s = true) (hspaces : IsBlank spaces) (hhidden : '"' ∉ hidden)
    (h : start ++ s :: (spaces ++ '"' :: (hidden ++ '"' :: rest)) =
      a ++ c :: (guarded e (n+1) (longWord length) ++ b)) :
    KeptBefore e (n+1) length a c ⟨start ++ s :: (spaces ++ ['"']),hidden,['"'],rest⟩ ∨
      LeftBehind e (n+1) length a b c ⟨start ++ s :: (spaces ++ ['"']),hidden,['"'],rest⟩ ∨
      Touched e n length b ⟨start ++ s :: (spaces ++ ['"']),hidden,['"'],rest⟩ := by
  obtain ⟨hspace,_,hquote⟩ := isSolid_iff.mp hc
  rcases separator_side hs (run_solid he hc).separators h with ⟨a',rfl,hbehind⟩ | ⟨b',rfl,_⟩
  · obtain ⟨a₂,rfl,hopen⟩ := prefix_side hspaces hspace hbehind
    cases a₂ with
    | nil => exact absurd (List.cons.inj hopen).1.symm hquote
    | cons q a₃ =>
      obtain ⟨rfl,hclose⟩ := List.cons.inj hopen
      by_cases hmem : '"' ∈ a₃
      · -- the closing quote stands before the guarded word
        obtain ⟨a₄,a₅,rfl,hnot⟩ := List.eq_append_cons_of_mem hmem
        have hfirst : hidden ++ '"' :: rest =
            a₄ ++ '"' :: (a₅ ++ c :: (guarded e (n+1) (longWord length) ++ b)) := by
          rw [hclose]
          simp
        obtain ⟨rfl,hrest⟩ := first_unique hhidden hnot hfirst
        refine .inr (.inl ⟨a₅,?_,hrest⟩)
        simp only [List.length_append, List.length_cons]
        omega
      · -- the closing quote is the first of the guarded word
        have hfirst : hidden ++ '"' :: rest =
            (a₃ ++ c :: ' ' :: e) ++ '"' :: ('y' :: (guarded e n (longWord length) ++ b)) := by
          rw [hclose]
          simp [guarded]
        have hnot : '"' ∉ a₃ ++ c :: ' ' :: e := by
          simp [hmem, hquote.symm, he.quotes]
        obtain ⟨_,hrest⟩ := first_unique hhidden hnot hfirst
        refine .inr (.inr ⟨'y' :: guarded e n (longWord length),
          start ++ s :: (spaces ++ ['"']) ++ (redactionMark ++ ['"']),'y',n,?_,hrest,by decide,
          le_refl n,?_⟩)
        · exact (run_guarded he n length).cons (by decide)
        · simp
  · exact .inl ⟨b' ++ s :: (spaces ++ ['"']),by simp⟩

theorem meets_word (he : Escape e) (hc : isSolid c = true) {start spaces hidden rest : List Char}
    {s : Char} (hs : isSeparator s = true) (hspaces : IsBlank spaces)
    (hhidden : ∀ d ∈ hidden, inWord d = true)
    (h : start ++ s :: (spaces ++ (hidden ++ rest)) =
      a ++ c :: (guarded e (n+1) (longWord length) ++ b)) :
    KeptBefore e (n+1) length a c ⟨start ++ s :: spaces,hidden,[],rest⟩ ∨
      LeftBehind e (n+1) length a b c ⟨start ++ s :: spaces,hidden,[],rest⟩ ∨
      Touched e n length b ⟨start ++ s :: spaces,hidden,[],rest⟩ := by
  obtain ⟨hspace,_,_⟩ := isSolid_iff.mp hc
  rcases separator_side hs (run_solid he hc).separators h with ⟨a',rfl,hbehind⟩ | ⟨b',rfl,_⟩
  · obtain ⟨a₂,rfl,hword⟩ := prefix_side hspaces hspace hbehind
    rcases word_side hhidden hword with ⟨a₃,rfl,hrest⟩ | ⟨_,hrest⟩
    · refine .inr (.inl ⟨a₃,?_,hrest⟩)
      simp only [List.length_append, List.length_cons]
      omega
    · refine .inr (.inr ⟨guarded e (n+1) (longWord length),start ++ s :: spaces ++ ['*','*'],'*',
        n+1,run_guarded he (n+1) length,hrest,by decide,Nat.le_succ n,?_⟩)
      simp [redactionMark]
  · exact .inl ⟨b' ++ s :: spaces,by simp⟩

theorem meets_kept (he : Escape e) (hc : isSolid c = true)
    {start lead spaces secret rest : List Char} {s : Char} (hs : isSeparator s = true)
    (hlead : IsBlank lead) (hspaces : IsBlank spaces) (hsecret : ∀ d ∈ secret, inWord d = true)
    (h : (start ++ lead) ++ s :: (spaces ++ (secret ++ rest)) =
      a ++ c :: (guarded e (n+1) (longWord length) ++ b)) :
    KeptBefore e (n+1) length a c ⟨start,lead ++ s :: spaces,secret,rest⟩ ∨
      LeftBehind e (n+1) length a b c ⟨start,lead ++ s :: spaces,secret,rest⟩ ∨
      Touched e n length b ⟨start,lead ++ s :: spaces,secret,rest⟩ := by
  obtain ⟨hspace,_,_⟩ := isSolid_iff.mp hc
  rcases separator_side hs (run_solid he hc).separators h with ⟨a',rfl,hbehind⟩ | ⟨b',hfront,_⟩
  · obtain ⟨a₂,rfl,hword⟩ := prefix_side hspaces hspace hbehind
    rcases word_side hsecret hword with ⟨a₃,rfl,hrest⟩ | ⟨rfl,hrest⟩
    · refine .inr (.inl ⟨a₃,?_,hrest⟩)
      simp only [List.length_append, List.length_cons]
      omega
    · refine .inr (.inr ⟨guarded e (n+1) (longWord length),start ++ redactionMark ++ a₂,c,n+1,
        run_guarded he (n+1) length,hrest,hc,Nat.le_succ n,?_⟩)
      simp
  · exact .inl (blanks_behind hlead (run_solid he hc) hfront)

/-- A match before a guarded word with one quote more. -/
theorem MatchShape.meets {f : Found Char} (hshape : MatchShape f) (he : Escape e)
    (hc : isSolid c = true)
    (h : f.whole ++ f.rest = a ++ c :: (guarded e (n+1) (longWord length) ++ b)) :
    KeptBefore e (n+1) length a c f ∨ LeftBehind e (n+1) length a b c f ∨
      Touched e n length b f := by
  cases hshape with
  | quoted start spaces hidden rest s hs hspaces hhidden =>
    exact meets_quoted he hc hs hspaces hhidden (by rw [← h]; simp [Found.whole])
  | word start spaces hidden rest s hs hspaces hhidden =>
    exact meets_word he hc hs hspaces hhidden (by rw [← h]; simp [Found.whole])
  | kept start lead spaces secret rest s hs hlead hspaces hsecret =>
    exact meets_kept he hc hs hlead hspaces hsecret (by rw [← h]; simp [Found.whole])

/-- One pass takes a guarded word one quote at most. -/
theorem sub_guards {find : Option Char → List Char → Option (Found Char)} (hfind : Shaped find)
    (he : Escape e) (hc : isSolid c = true) (prev : Option Char) (b : List Char) :
    ∃ m, n ≤ m ∧ Guards e (longWord length) m (sub find redactionMark prev 0
      (a ++ c :: (guarded e (n+1) (longWord length) ++ b))) := by
  induction hsize : a.length using Nat.strong_induction_on generalizing a prev with
  | _ size ih =>
    cases hfound : find prev (a ++ c :: (guarded e (n+1) (longWord length) ++ b)) with
    | some f =>
      obtain ⟨hsplit,_⟩ := hfind.splits _ _ _ hfound
      obtain ⟨prev',hsub⟩ := @exists_sub_found _ _ redactionMark hfind.splits _ _ _ hfound
      rw [hsub]
      rcases (hfind.shape _ _ _ hfound).meets he hc hsplit.symm with
        ⟨b',hbefore⟩ | ⟨a',hlt,hrest⟩ | ⟨r,start,d,m,hr,hrest,hd,hle,htext⟩
      · refine ⟨n+1,Nat.le_succ n,a,c,
          b' ++ (redactionMark ++ (f.after ++ sub find redactionMark prev' 0 f.rest)),hc,?_⟩
        rw [hbefore]
        simp
      · obtain ⟨m,hle,start,d,rest,hd,heq⟩ := ih a'.length (hsize ▸ hlt) prev' rfl
        refine ⟨m,hle,f.before ++ (redactionMark ++ (f.after ++ start)),d,rest,hd,?_⟩
        rw [hrest, heq]
        simp
      · obtain ⟨b',hrun⟩ := @sub_run find hfind redactionMark r hr prev' b
        refine ⟨m,hle,start,d,b',hd,?_⟩
        have hassoc : f.before ++ (redactionMark ++ (f.after ++ (r ++ b'))) =
            (f.before ++ (redactionMark ++ (f.after ++ r))) ++ b' := by simp
        rw [hrest, hrun, hassoc, htext]
        simp
    | none =>
      cases a with
      | nil =>
        have hsolid : Run (c :: guarded e (n+1) (longWord length)) := run_solid he hc
        obtain ⟨b',hrun⟩ := @sub_run find hfind redactionMark _ hsolid prev b
        exact ⟨n+1,Nat.le_succ n,[],c,b',hc,hrun⟩
      | cons d a =>
        rw [List.cons_append] at hfound ⊢
        rw [sub_none hfound]
        obtain ⟨m,hle,start,d',rest,hd,heq⟩ := ih a.length (hsize ▸ Nat.lt_succ_self _) (some d) rfl
        exact ⟨m,hle,d::start,d',rest,hd,by rw [heq, List.cons_append]⟩

end

/-- The last word of a secret with more quotes than patterns is shown. -/
theorem foldl_guards {e : List Char} (he : Escape e) {length : Nat}
    {ps : List (Option Char → List Char → Option (Found Char))} (hps : ∀ p ∈ ps, Shaped p)
    {n : Nat} (hn : ps.length ≤ n) {cs : List Char} (h : Guards e (longWord length) n cs) :
    ∃ m, Guards e (longWord length) m
      (ps.foldl (fun cs p => LogRedactionEngine.substitute p cs) cs) := by
  induction ps generalizing n cs with
  | nil => exact ⟨n,h⟩
  | cons p ps ih =>
    obtain ⟨k,rfl⟩ : ∃ k, n = k+1 := ⟨n-1,by simp at hn; omega⟩
    obtain ⟨start,c,rest,hc,rfl⟩ := h
    obtain ⟨m,hle,hguards⟩ :=
      @sub_guards e k length start c p (hps p List.mem_cons_self) he hc none rest
    rw [List.foldl_cons]
    exact ih (fun q hq => hps q (List.mem_cons_of_mem _ hq)) (by simp at hn; omega) hguards

theorem length_le_of_guards {e : List Char} {length n : Nat} {cs : List Char}
    (h : Guards e (longWord length) n cs) : length < cs.length := by
  obtain ⟨start,c,rest,_,rfl⟩ := h
  have hword : length + 1 ≤ (guarded e n (longWord length)).length := by
    induction n with
    | zero => simp [guarded, longWord]
    | succ n ih =>
      simp only [guarded, List.length_cons, List.length_append]
      omega
  simp only [List.length_append, List.length_cons]
  omega

/-- A secret with so many quotes and a long last word. -/
def quotedSecret (n length : Nat) : String :=
  String.ofList ('x' :: guarded [] n (longWord length))

/-- What escapes letter by letter turns a guarded word into a guarded word. -/
theorem flatMap_guarded {esc : Char → List Char} {e : List Char} (hblank : esc ' ' = [' '])
    (hquote : esc '"' = e ++ ['"']) (hy : esc 'y' = ['y']) (hx : esc 'x' = ['x']) (n length : Nat) :
    (guarded [] n (longWord length)).flatMap esc = guarded e n (longWord length) := by
  induction n with
  | zero =>
    have hword : ∀ k, (List.replicate k 'x').flatMap esc = List.replicate k 'x' := by
      intro k
      induction k with
      | zero => rfl
      | succ k ih => rw [List.replicate_succ, List.flatMap_cons, hx, ih, List.singleton_append]
    rw [guarded, guarded, List.flatMap_cons, hblank, longWord, hword, List.singleton_append]
  | succ n ih => simp [guarded, hblank, hquote, hy, ih]

theorem guarded_letters (n length : Nat) :
    ∀ c ∈ guarded [] n (longWord length), c ∈ [' ','"','y','x'] := by
  intro c hc
  induction n with
  | zero =>
    rcases List.mem_cons.mp hc with rfl | hc
    · simp
    · rw [List.eq_of_mem_replicate hc]
      simp
  | succ n ih =>
    simp only [guarded, List.nil_append, List.mem_cons] at hc
    rcases hc with rfl | rfl | rfl | hc
    · simp
    · simp
    · simp
    · exact ih hc

end TextPattern

/-! ## Events with a secret -/

/-- How a text shows the secret: in JSON, in ASCII JSON, as a literal of Python, or as it is. -/
inductive Rendering
  | json
  | asciiJson
  | repr
  | plain
  deriving DecidableEq, Repr

def Rendering.text : Rendering → String → String
  | .json, v => Text.jsonString v
  | .asciiJson, v => String.ofList (Text.asciiString v)
  | .repr, v => Value.strRepr v
  | .plain, v => v

/-- A part of a text. -/
inductive Piece
  | literal (text : String)
  | secret (rendering : Rendering)
  deriving DecidableEq, Repr

def Piece.isLiteral : Piece → Bool
  | .literal _ => true
  | .secret _ => false

def Piece.fill (v : String) : Piece → String
  | .literal text => text
  | .secret rendering => rendering.text v

def fillText (pieces : List Piece) (v : String) : String := String.join (pieces.map (Piece.fill v))

/-- An event that depends on a secret. -/
inductive LogEvent
  | value (v : Value)
  | text (pieces : List Piece)
  | list (items : List LogEvent)
  | dict (fields : List (String × LogEvent))

namespace LogEvent

mutual
def fill (v : String) : LogEvent → Value
  | .value w => w
  | .text pieces => .str (fillText pieces v)
  | .list items => .list (fillItems v items)
  | .dict fields => .dict (fillFields v fields)

def fillItems (v : String) : List LogEvent → List Value
  | [] => []
  | e::es => fill v e :: fillItems v es

def fillFields (v : String) : List (String × LogEvent) → List (String × Value)
  | [] => []
  | (k,e)::fs => (k,fill v e) :: fillFields v fs
end

mutual
/-- No text outside the values of the policy's keys shows the secret. -/
def Structured (engine : LogRedactionEngine) : LogEvent → Prop
  | .value _ => True
  | .text pieces => ∀ p ∈ pieces, p.isLiteral = true
  | .list items => StructuredItems engine items
  | .dict fields => StructuredFields engine fields

def StructuredItems (engine : LogRedactionEngine) : List LogEvent → Prop
  | [] => True
  | e::es => Structured engine e ∧ StructuredItems engine es

def StructuredFields (engine : LogRedactionEngine) : List (String × LogEvent) → Prop
  | [] => True
  | (k,e)::fs => (engine.isSensitive k = true ∨ Structured engine e) ∧ StructuredFields engine fs
end

end LogEvent

open TextPattern

theorem apostrophe_not_mem (n length : Nat) :
    ('\'' : Char) ∉ (quotedSecret n length).toList := by
  rw [quotedSecret, String.toList_ofList]
  intro hmem
  rcases List.mem_cons.mp hmem with h | h
  · exact absurd h (by decide)
  · have hletter := guarded_letters n length _ h
    simp at hletter

/-- Every rendering of such a secret shows a guarded word behind its first letter. -/
theorem Rendering.text_guarded (r : Rendering) : ∃ e, Escape e ∧ ∀ n length, ∃ start rest,
    (r.text (quotedSecret n length)).toList =
      start ++ 'x' :: (guarded e n (longWord length) ++ rest) := by
  have hplain : Escape [] := ⟨fun c h => absurd h List.not_mem_nil,List.not_mem_nil⟩
  have hslash : Escape ['\\'] := by
    refine ⟨fun c h => ?_,by decide⟩
    rw [List.mem_singleton.mp h]
    decide
  cases r with
  | json =>
    refine ⟨['\\'],hslash,fun n length => ⟨[Char.ofNat 34],[Char.ofNat 34],?_⟩⟩
    have hx : Text.jsonEscape 'x' = ['x'] := by decide
    rw [Rendering.text, Text.jsonString, String.toList_ofList, quotedSecret, String.toList_ofList,
      List.flatMap_cons, hx, flatMap_guarded (e := ['\\']) (by decide) (by decide) (by decide) hx]
    rfl
  | asciiJson =>
    refine ⟨['\\'],hslash,fun n length => ⟨[Text.quote],[Text.quote],?_⟩⟩
    have hx : Text.asciiEscape 'x' = ['x'] := by decide
    rw [Rendering.text, String.toList_ofList, Text.asciiString, terminated, quotedSecret,
      String.toList_ofList, List.flatMap_cons, hx,
      flatMap_guarded (e := ['\\']) (by decide) (by decide) (by decide) hx]
    rfl
  | repr =>
    refine ⟨[],hplain,fun n length => ⟨['\''],['\''],?_⟩⟩
    have hquote : (quotedSecret n length).toList.contains '\'' = false := by
      rw [Bool.eq_false_iff, ne_eq, List.contains_iff_mem]
      exact apostrophe_not_mem n length
    have hx : Value.escapeChar '\'' 'x' = ['x'] := by decide
    rw [Rendering.text, Value.strRepr, hquote]
    rw [Bool.false_and, if_neg (by decide), String.toList_ofList, quotedSecret,
      String.toList_ofList, List.flatMap_cons, hx,
      flatMap_guarded (e := []) (by decide) (by decide) (by decide) hx]
    rfl
  | plain =>
    refine ⟨[],hplain,fun n length => ⟨[],[],?_⟩⟩
    rw [Rendering.text, quotedSecret, String.toList_ofList, List.append_nil, List.nil_append]

theorem toList_fillText (pieces : List Piece) (v : String) :
    (fillText pieces v).toList = pieces.flatMap fun p => (p.fill v).toList := by
  rw [fillText, String.toList_join]
  simp [List.flatMap_map]

/-- A text that shows the secret somewhere. -/
theorem fillText_guards {pieces : List Piece} {r : Rendering} (h : .secret r ∈ pieces) :
    ∃ e, Escape e ∧ ∀ n length,
      Guards e (longWord length) n (fillText pieces (quotedSecret n length)).toList := by
  obtain ⟨before,after,rfl⟩ := List.append_of_mem h
  obtain ⟨e,he,hshow⟩ := r.text_guarded
  refine ⟨e,he,fun n length => ?_⟩
  obtain ⟨start,rest,heq⟩ := hshow n length
  refine ⟨(before.flatMap fun p => (p.fill (quotedSecret n length)).toList) ++ start,'x',
    rest ++ after.flatMap fun p => (p.fill (quotedSecret n length)).toList,by decide,?_⟩
  rw [toList_fillText, List.flatMap_append, List.flatMap_cons, Piece.fill, heq]
  simp

namespace LogRedactionEngine

variable (engine : LogRedactionEngine)

theorem fillText_literal {pieces : List Piece} (h : ∀ p ∈ pieces, p.isLiteral = true)
    (v v' : String) : fillText pieces v = fillText pieces v' := by
  rw [fillText, fillText]
  congr 1
  apply List.map_congr_left
  intro p hp
  cases p with
  | literal text => rfl
  | secret r => exact absurd (h _ hp) Bool.false_ne_true

/-- A text is redacted alike for all secrets exactly where it shows none. -/
theorem redactText_constant_iff (henabled : engine.policy.enabled = true) (pieces : List Piece) :
    (∀ v v', engine.redactText (fillText pieces v) = engine.redactText (fillText pieces v')) ↔
      ∀ p ∈ pieces, p.isLiteral = true := by
  constructor
  · intro hconstant p hp
    cases p with
    | literal text => rfl
    | secret r =>
      obtain ⟨e,he,hguards⟩ := fillText_guards hp
      -- longer than what the empty secret leaves
      have hsecret := hguards engine.patterns.length
        (engine.redactText (fillText pieces "")).toList.length
      obtain ⟨m,hshown⟩ := foldl_guards he engine.patterns_shaped (le_refl _) hsecret
      have hlong := length_le_of_guards hshown
      have hne : fillText pieces (quotedSecret engine.patterns.length
          (engine.redactText (fillText pieces "")).toList.length) ≠ "" := by
        intro hempty
        obtain ⟨start,c,rest,_,htext⟩ := hsecret
        rw [hempty] at htext
        simp at htext
      have hsame := hconstant "" (quotedSecret engine.patterns.length
        (engine.redactText (fillText pieces "")).toList.length)
      have hlength := congrArg (fun s => s.toList.length) hsame
      rw [redactText.eq_def engine (fillText pieces (quotedSecret _ _)), henabled] at hlength
      rw [if_neg (by simpa using hne), String.toList_ofList] at hlength
      omega
  · intro h v v'
    rw [fillText_literal h v v']

mutual
theorem redactPlain_constant_iff (henabled : engine.policy.enabled = true) : ∀ e : LogEvent,
    (∀ v v', engine.redactPlain (e.fill v) = engine.redactPlain (e.fill v')) ↔
      e.Structured engine
  | .value w => iff_of_true (fun _ _ => rfl) trivial
  | .text pieces => by
    rw [LogEvent.Structured, ← redactText_constant_iff engine henabled]
    simp only [LogEvent.fill, redactPlain, Value.str.injEq]
  | .list items => by
    rw [LogEvent.Structured, ← redactItems_constant_iff henabled items]
    simp only [LogEvent.fill, redactPlain, Value.list.injEq]
  | .dict fields => by
    rw [LogEvent.Structured, ← redactFields_constant_iff henabled fields]
    simp only [LogEvent.fill, redactPlain, Value.dict.injEq]

theorem redactItems_constant_iff (henabled : engine.policy.enabled = true) :
    ∀ es : List LogEvent,
      (∀ v v', engine.redactItems (LogEvent.fillItems v es) =
        engine.redactItems (LogEvent.fillItems v' es)) ↔ LogEvent.StructuredItems engine es
  | [] => iff_of_true (fun _ _ => rfl) trivial
  | e::es => by
    rw [LogEvent.StructuredItems, ← redactPlain_constant_iff henabled e,
      ← redactItems_constant_iff henabled es]
    simp only [LogEvent.fillItems, redactItems, List.cons.injEq, forall_and]

theorem redactFields_constant_iff (henabled : engine.policy.enabled = true) :
    ∀ fs : List (String × LogEvent),
      (∀ v v', engine.redactFields (LogEvent.fillFields v fs) =
        engine.redactFields (LogEvent.fillFields v' fs)) ↔ LogEvent.StructuredFields engine fs
  | [] => iff_of_true (fun _ _ => rfl) trivial
  | (k,e)::fs => by
    rw [LogEvent.StructuredFields, ← redactPlain_constant_iff henabled e,
      ← redactFields_constant_iff henabled fs]
    cases hk : engine.isSensitive k <;>
      simp [LogEvent.fillFields, redactFields, hk, forall_and]
end

theorem redactEventDict_eq (henabled : engine.policy.enabled = true) (event : Fields) :
    engine.redactEventDict event = engine.redactFields event := by
  induction event with
  | nil => rfl
  | cons f event ih =>
    rw [redactEventDict, List.map_cons, ← redactEventDict, ih, redactFields, redactValue, henabled]
    rfl

/-- Letters and digits of ASCII. -/
def asciiTables : CharTables where
  casefold := Text.lower
  sameLetter a b := a.toLower = b.toLower
  isWord c := c.isAlphanum || c == '_'

def passwordEngine : LogRedactionEngine where
  policy := { keys := ["Password"] }
  tables := asciiTables
  normalizedKeys := ["password"]
  normalized key := by
    have hkey : Text.strip "Password" ≠ "" ∧ Text.lower "Password" = "password" := by decide
    constructor
    · intro h
      rw [List.mem_singleton.mp h]
      exact ⟨"Password",List.mem_singleton_self _,hkey⟩
    · rintro ⟨k,hk,_,rfl⟩
      rw [List.mem_singleton.mp hk]
      exact List.mem_singleton.mpr hkey.2
  nodup := List.nodup_singleton _

end LogRedactionEngine

end NexusEtl
