import NexusEtl.Library.Codes
import NexusEtl.Text

/-!
# JSON texts in ASCII

The text that `json.dumps` writes with `ensure_ascii=True` for strings, lists of
strings and objects of them. Characters above U+FFFF become two escapes, which
no other character begins with, so the text of a list determines the list.
-/

set_option autoImplicit false

namespace NexusEtl.Text
open NexusEtl.Library

def hex4 (n : Nat) : List Char :=
  [hexDigit (n / 4096 % 16),hexDigit (n / 256 % 16),hexDigit (n / 16 % 16),hexDigit (n % 16)]

def unicodeEscape (n : Nat) : List Char := Char.ofNat 92 :: 'u' :: hex4 n

/-- One character between the quotes. -/
def asciiEscape (c : Char) : List Char :=
  match jsonEscapes.find? fun e => e.1 == c.toNat with
  | some e => [Char.ofNat 92,e.2]
  | none =>
    if 32 ≤ c.toNat ∧ c.toNat ≤ 126 then [c]
    else if c.toNat < 0x10000 then unicodeEscape c.toNat
    else unicodeEscape (0xd800 + (c.toNat - 0x10000) / 1024) ++
      unicodeEscape (0xdc00 + (c.toNat - 0x10000) % 1024)

def quote : Char := Char.ofNat 34

def asciiString (s : String) : List Char := quote::terminated quote asciiEscape s.toList

/-- A list of strings with the separators `,` and `:`. -/
def asciiList (l : List String) : List Char := '['::separated ',' ']' asciiString l

def asciiObject (fields : List (String × List Char)) : List Char :=
  Char.ofNat 123::separated ',' (Char.ofNat 125)
    (fun f : String × List Char => asciiString f.1 ++ ':'::f.2) fields

theorem hexDigit_injective : ∀ m < 16, ∀ n < 16, hexDigit m = hexDigit n → m = n := by decide

theorem hex4_injective {m n : Nat} (hm : m < 65536) (hn : n < 65536) (h : hex4 m = hex4 n) :
    m = n := by
  simp only [hex4, List.cons.injEq, and_true] at h
  have h₁ := hexDigit_injective _ (Nat.mod_lt _ (by decide)) _ (Nat.mod_lt _ (by decide)) h.1
  have h₂ := hexDigit_injective _ (Nat.mod_lt _ (by decide)) _ (Nat.mod_lt _ (by decide)) h.2.1
  have h₃ := hexDigit_injective _ (Nat.mod_lt _ (by decide)) _ (Nat.mod_lt _ (by decide)) h.2.2.1
  have h₄ := hexDigit_injective _ (Nat.mod_lt _ (by decide)) _ (Nat.mod_lt _ (by decide)) h.2.2.2
  omega

theorem unicodeEscape_unique {m n : Nat} (hm : m < 65536) (hn : n < 65536) {r s : List Char}
    (h : unicodeEscape m ++ r = unicodeEscape n ++ s) : m = n ∧ r = s := by
  have hhex : hex4 m ++ r = hex4 n ++ s := (List.cons.inj (List.cons.inj h).2).2
  obtain ⟨heq,hrest⟩ := List.append_inj hhex rfl
  exact ⟨hex4_injective hm hn heq,hrest⟩

/-- The four kinds of word: a two-letter escape, the character itself, one escape by its code,
or a surrogate pair. -/
theorem asciiEscape_cases (c : Char) :
    (∃ e ∈ jsonEscapes, e.1 = c.toNat ∧ asciiEscape c = [Char.ofNat 92,e.2]) ∨
      (c ≠ Char.ofNat 92 ∧ c ≠ quote ∧ asciiEscape c = [c]) ∨
      (c.toNat < 0x10000 ∧ (c.toNat < 0xd800 ∨ 0xdfff < c.toNat) ∧
        asciiEscape c = unicodeEscape c.toNat) ∨
      (∃ n, c.toNat = 0x10000 + n ∧ n < 0x100000 ∧
        asciiEscape c = unicodeEscape (0xd800 + n / 1024) ++ unicodeEscape (0xdc00 + n % 1024)) := by
  have hvalid : c.toNat < 0xd800 ∨ 0xdfff < c.toNat ∧ c.toNat < 0x110000 := c.valid
  unfold asciiEscape
  cases hf : jsonEscapes.find? fun e => e.1 == c.toNat with
  | some e =>
    have hcode := List.find?_some hf
    exact .inl ⟨e,List.mem_of_find?_eq_some hf,by simpa using hcode,rfl⟩
  | none =>
    dsimp only
    by_cases hprint : 32 ≤ c.toNat ∧ c.toNat ≤ 126
    · refine .inr (.inl ⟨?_,?_,if_pos hprint⟩)
      · rintro rfl
        exact absurd hf (by decide)
      · rintro rfl
        exact absurd hf (by decide)
    · rw [if_neg hprint]
      by_cases hsmall : c.toNat < 0x10000
      · exact .inr (.inr (.inl ⟨hsmall,by omega,if_pos hsmall⟩))
      · exact .inr (.inr (.inr ⟨c.toNat - 0x10000,by omega,by omega,if_neg hsmall⟩))

theorem asciiEscape_selfDelimiting : SelfDelimiting asciiEscape := by
  have hshort : ∀ e ∈ jsonEscapes, ∀ f ∈ jsonEscapes, e.2 = f.2 → e.1 = f.1 := by decide
  have hlong : ∀ e ∈ jsonEscapes, e.2 ≠ 'u' := by decide
  have hcode : ∀ {c d : Char}, c.toNat = d.toNat → c = d :=
    fun h => Char.ext (UInt32.toNat_inj.mp h)
  intro c d r s h
  rcases asciiEscape_cases c with ⟨e,he,hec,hc⟩ | ⟨hne,_,hc⟩ | ⟨hlt,hrange,hc⟩ | ⟨n,hn,hbound,hc⟩ <;>
    rcases asciiEscape_cases d with ⟨f,hf,hfd,hd⟩ | ⟨hne',_,hd⟩ | ⟨hlt',hrange',hd⟩ |
      ⟨n',hn',hbound',hd⟩ <;>
    rw [hc, hd] at h
  · simp only [List.cons_append, List.nil_append, List.cons.injEq, true_and] at h
    exact ⟨hcode (by rw [← hec, ← hfd, hshort e he f hf h.1]),h.2⟩
  · exact absurd (List.cons.inj h).1.symm hne'
  · exact absurd (List.cons.inj (List.cons.inj h).2).1 (hlong e he)
  · exact absurd (List.cons.inj (List.cons.inj h).2).1 (hlong e he)
  · exact absurd (List.cons.inj h).1 hne
  · exact List.cons.inj h
  · exact absurd (List.cons.inj h).1 hne
  · exact absurd (List.cons.inj h).1 hne
  · exact absurd (List.cons.inj (List.cons.inj h).2).1.symm (hlong f hf)
  · exact absurd (List.cons.inj h).1.symm hne'
  · obtain ⟨heq,hrest⟩ := unicodeEscape_unique hlt hlt' h
    exact ⟨hcode heq,hrest⟩
  · rw [List.append_assoc] at h
    have heq := (unicodeEscape_unique hlt (by omega) h).1
    omega
  · exact absurd (List.cons.inj (List.cons.inj h).2).1.symm (hlong f hf)
  · exact absurd (List.cons.inj h).1.symm hne'
  · rw [List.append_assoc] at h
    have heq := (unicodeEscape_unique (by omega) hlt' h).1
    omega
  · rw [List.append_assoc, List.append_assoc] at h
    obtain ⟨hhigh,h⟩ := unicodeEscape_unique (by omega) (by omega) h
    obtain ⟨hlow,hrest⟩ := unicodeEscape_unique (by omega) (by omega) h
    exact ⟨hcode (by omega),hrest⟩

theorem asciiString_selfDelimiting : SelfDelimiting asciiString := by
  have hstart : StartsOtherThan asciiEscape quote := by
    intro c
    rcases asciiEscape_cases c with ⟨e,_,_,hc⟩ | ⟨_,hne,hc⟩ | ⟨_,_,hc⟩ | ⟨n,_,_,hc⟩
    · exact ⟨_,_,hc,by decide⟩
    · exact ⟨_,_,hc,hne⟩
    · exact ⟨_,_,hc,by decide⟩
    · exact ⟨_,_,hc,by decide⟩
  intro s t r r' h
  obtain ⟨heq,hrest⟩ := (asciiEscape_selfDelimiting.terminated hstart).cons quote
    s.toList t.toList r r' h
  exact ⟨String.toList_injective heq,hrest⟩

theorem asciiList_selfDelimiting : SelfDelimiting asciiList :=
  (asciiString_selfDelimiting.separated (by decide) fun _ => ⟨_,_,rfl,by decide⟩).cons '['

end NexusEtl.Text
