import NexusEtl.Library.Codes
import NexusEtl.Value
import Mathlib.Tactic.Ring
import Mathlib.Tactic.Linarith

/-!
# JSON texts of values

The text that `json.dumps` writes for a value with `ensure_ascii=False`. A number
ends where the next character is none of a number, and every other text ends by
itself, so the text determines the value as long as each float is a decimal number.
-/

set_option autoImplicit false

namespace NexusEtl.Value
open NexusEtl.Library

mutual
def jsonChars : Value → List Char
  | .null => ['n','u','l','l']
  | .bool b => if b then ['t','r','u','e'] else ['f','a','l','s','e']
  | .int n => (toString n).toList
  | .float q => (floatRepr q).toList
  | .str s => (Text.jsonString s).toList
  | .list [] => ['[',']']
  | .list (v::vs) => '[' :: (jsonChars v ++ jsonItems vs)
  | .dict [] => ['\x7b','\x7d']
  | .dict ((k,v)::kvs) =>
    '\x7b' :: ((Text.jsonString k).toList ++ ':' :: ' ' :: (jsonChars v ++ jsonFields kvs))

/-- What follows the first item of a list. -/
def jsonItems : List Value → List Char
  | [] => [']']
  | v::vs => ',' :: ' ' :: (jsonChars v ++ jsonItems vs)

def jsonFields : List (String × Value) → List Char
  | [] => ['\x7d']
  | (k,v)::kvs => ',' :: ' ' :: ((Text.jsonString k).toList ++ ':' :: ' ' :: (jsonChars v ++ jsonFields kvs))
end

/-- `json.dumps(value, ensure_ascii=False)` -/
def dumps (v : Value) : String := String.ofList v.jsonChars

mutual
/-- Every float inside is a decimal number. -/
def Decimal : Value → Prop
  | .float q => 10^400 % q.den = 0
  | .list items => DecimalItems items
  | .dict fields => DecimalFields fields
  | _ => True

def DecimalItems : List Value → Prop
  | [] => True
  | v::vs => Decimal v ∧ DecimalItems vs

def DecimalFields : List (String × Value) → Prop
  | [] => True
  | (_,v)::kvs => Decimal v ∧ DecimalFields kvs
end

theorem decimalPlaces_spec {den : Nat} :
    ∀ {fuel k : Nat}, 10^(k+fuel) % den = 0 → 10^(decimalPlaces den fuel k) % den = 0
  | 0, _, h => h
  | fuel+1, k, h => by
    unfold decimalPlaces
    split
    · assumption
    · apply decimalPlaces_spec
      rw [show k+1+fuel = k+(fuel+1) by omega]
      exact h

def inNumber (c : Char) : Bool := c.isDigit || c == '.' || c == '-'

theorem mem_toString_nat {n : Nat} {c : Char} (h : c ∈ (toString n).toList) : c.isDigit = true := by
  rw [show toString n = n.repr from rfl, Nat.toList_repr] at h
  exact Nat.isDigit_of_mem_toDigits (by decide) (by decide) h

theorem ofDigitChars_toString (n : Nat) : Nat.ofDigitChars 10 (toString n).toList 0 = n := by
  rw [show toString n = n.repr from rfl, Nat.toList_repr, Nat.ofDigitChars_ten_toDigits]

namespace FloatText

variable (q : Rat)

def places : Nat := decimalPlaces q.den 400 0

def scaled : Nat := q.num.natAbs * 10^places q / q.den

def sign : List Char := if q.num < 0 then ['-'] else []

def fraction : List Char :=
  if places q = 0 then ['0']
  else (padZeros (places q) (toString (scaled q % 10^places q))).toList

theorem toList_floatRepr : (floatRepr q).toList =
    sign q ++ ((toString (scaled q / 10^places q)).toList ++ '.' :: fraction q) := by
  unfold floatRepr
  dsimp only
  rw [String.toList_append, String.toList_append, String.toList_append, List.append_assoc,
    List.append_assoc]
  unfold sign fraction places scaled
  congr 1
  · split <;> rfl
  · congr 2
    split <;> rfl

theorem fraction_digits {c : Char} (h : c ∈ fraction q) : c.isDigit = true := by
  unfold fraction at h
  split at h
  · rw [List.mem_singleton.mp h]
    rfl
  · unfold padZeros at h
    rw [String.toList_append, String.toList_ofList, List.mem_append] at h
    rcases h with h | h
    · rw [List.eq_of_mem_replicate h]
      rfl
    · exact mem_toString_nat h

theorem ofDigitChars_fraction :
    Nat.ofDigitChars 10 (fraction q) 0 = scaled q % 10^places q := by
  unfold fraction
  split
  · rename_i h
    rw [h, pow_zero, Nat.mod_one]
    rfl
  · unfold padZeros
    rw [String.toList_append, String.toList_ofList, Nat.ofDigitChars_append,
      Nat.ofDigitChars_replicate_zero, Nat.mul_zero, ofDigitChars_toString]

theorem length_fraction : (fraction q).length = max 1 (places q) := by
  unfold fraction
  split
  · rename_i h
    rw [h]
    rfl
  · have hdigits : (toString (scaled q % 10^places q)).toList.length ≤ places q := by
      rw [show toString (scaled q % 10^places q) = (scaled q % 10^places q).repr from rfl,
        Nat.toList_repr, Nat.length_toDigits_le_iff (by decide) (by omega)]
      exact Nat.mod_lt _ (Nat.pow_pos (by decide))
    unfold padZeros
    rw [String.toList_append, String.toList_ofList, List.length_append, List.length_replicate]
    omega

theorem scaled_mul_den {q : Rat} (h : 10^400 % q.den = 0) :
    scaled q * q.den = q.num.natAbs * 10^places q := by
  have hplaces : 10^places q % q.den = 0 := by
    apply decimalPlaces_spec
    rw [Nat.zero_add]
    exact h
  apply Nat.div_mul_cancel
  exact Dvd.dvd.mul_left (Nat.dvd_of_mod_eq_zero hplaces) _

/-- Texts with the same digits are texts of the same size. -/
theorem natAbs_mul_den {q q' : Rat} (h : 10^400 % q.den = 0) (h' : 10^400 % q'.den = 0)
    (hwhole : scaled q / 10^places q = scaled q' / 10^places q')
    (hfraction : fraction q = fraction q') :
    q.num.natAbs * q'.den = q'.num.natAbs * q.den := by
  have hrest : scaled q % 10^places q = scaled q' % 10^places q' := by
    rw [← ofDigitChars_fraction, hfraction, ofDigitChars_fraction]
  have hlength : max 1 (places q) = max 1 (places q') := by
    rw [← length_fraction, hfraction, length_fraction]
  -- two texts of one length differ in places only as `a.0` for none or one
  have hcross : scaled q * 10^places q' = scaled q' * 10^places q := by
    have hq := Nat.div_add_mod (scaled q) (10^places q)
    have hq' := Nat.div_add_mod (scaled q') (10^places q')
    by_cases hsame : places q = places q'
    · rw [← hsame] at hq' hwhole hrest ⊢
      rw [← hq, ← hq', hwhole, hrest]
    · by_cases hzero : places q = 0
      · have hone : places q' = 1 := by omega
        simp only [hzero, hone, pow_zero, pow_one, Nat.div_one, Nat.mod_one] at hq' hwhole hrest ⊢
        omega
      · have hzero' : places q' = 0 := by omega
        have hone : places q = 1 := by omega
        simp only [hzero', hone, pow_zero, pow_one, Nat.div_one, Nat.mod_one] at hq hwhole hrest ⊢
        omega
  have hpos : 0 < 10^places q * 10^places q' :=
    Nat.mul_pos (Nat.pow_pos (by decide)) (Nat.pow_pos (by decide))
  apply Nat.eq_of_mul_eq_mul_right hpos
  have hscaled := scaled_mul_den h
  have hscaled' := scaled_mul_den h'
  calc q.num.natAbs * q'.den * (10^places q * 10^places q')
      = q.num.natAbs * 10^places q * q'.den * 10^places q' := by ring
    _ = scaled q * 10^places q' * q.den * q'.den := by rw [← hscaled]; ring
    _ = scaled q' * q'.den * q.den * 10^places q := by rw [hcross]; ring
    _ = q'.num.natAbs * q.den * (10^places q * 10^places q') := by rw [hscaled']; ring

theorem sign_append {q q' : Rat} {ds ds' r s : List Char} (hds : ∀ c ∈ ds, c.isDigit = true)
    (hds' : ∀ c ∈ ds', c.isDigit = true) (hne : ds ≠ []) (hne' : ds' ≠ [])
    (h : sign q ++ (ds ++ r) = sign q' ++ (ds' ++ s)) :
    (q.num < 0 ↔ q'.num < 0) ∧ ds ++ r = ds' ++ s := by
  have hstart {ds r : List Char} (hds : ∀ c ∈ ds, c.isDigit = true) (hne : ds ≠ [])
      {rest : List Char} : ds ++ r ≠ '-' :: rest := by
    intro he
    cases ds with
    | nil => exact hne rfl
    | cons d ds =>
      have hd := hds d List.mem_cons_self
      rw [(List.cons.inj he).1] at hd
      cases hd
  unfold sign at h
  by_cases hq : q.num < 0
  · by_cases hq' : q'.num < 0
    · rw [if_pos hq, if_pos hq'] at h
      exact ⟨iff_of_true hq hq',(List.cons.inj h).2⟩
    · rw [if_pos hq, if_neg hq'] at h
      exact absurd h.symm (hstart hds' hne')
  · by_cases hq' : q'.num < 0
    · rw [if_neg hq, if_pos hq'] at h
      exact absurd h (hstart hds hne)
    · rw [if_neg hq, if_neg hq'] at h
      exact ⟨iff_of_false hq hq',h⟩

theorem inNumber_floatRepr {c : Char} (h : c ∈ (floatRepr q).toList) : inNumber c = true := by
  rw [toList_floatRepr, List.mem_append, List.mem_append, List.mem_cons] at h
  rcases h with h | h | rfl | h
  · unfold sign at h
    split at h
    · rw [List.mem_singleton.mp h]
      rfl
    · cases h
  · simp [inNumber, mem_toString_nat h]
  · rfl
  · simp [inNumber, fraction_digits q h]

end FloatText

/-- A decimal number can be read off its text. -/
theorem floatRepr_injective {q q' : Rat} (h : 10^400 % q.den = 0) (h' : 10^400 % q'.den = 0)
    (heq : floatRepr q = floatRepr q') : q = q' := by
  have hlist := congrArg String.toList heq
  rw [FloatText.toList_floatRepr, FloatText.toList_floatRepr] at hlist
  have hne (n : Nat) : (toString n).toList ≠ [] := by
    rw [show toString n = n.repr from rfl, Nat.toList_repr]
    exact Nat.toDigits_ne_nil
  obtain ⟨hsign,htext⟩ := FloatText.sign_append (fun c hc => mem_toString_nat hc)
    (fun c hc => mem_toString_nat hc) (hne _) (hne _) hlist
  have hdot {r : List Char} : Ends Char.isDigit ('.' :: r) := by
    intro c rest he
    rw [← (List.cons.inj he).1]
    rfl
  obtain ⟨hwhole,hfraction⟩ := token_unique (fun c hc => mem_toString_nat hc)
    (fun c hc => mem_toString_nat hc) hdot hdot htext
  have hnat : q.num.natAbs * q'.den = q'.num.natAbs * q.den := by
    apply FloatText.natAbs_mul_den h h'
    · rw [← ofDigitChars_toString (FloatText.scaled q / _), hwhole, ofDigitChars_toString]
    · exact (List.cons.inj hfraction).2
  rw [Rat.eq_iff_mul_eq_mul]
  have hcast : (q.num.natAbs : Int) * q'.den = q'.num.natAbs * q.den := by exact_mod_cast hnat
  by_cases hneg : q.num < 0
  · have hneg' := hsign.mp hneg
    rw [Int.ofNat_natAbs_of_nonpos (by omega), Int.ofNat_natAbs_of_nonpos (by omega)] at hcast
    linarith
  · have hnonneg' : ¬ q'.num < 0 := fun hlt => hneg (hsign.mpr hlt)
    rwa [Int.natAbs_of_nonneg (by omega), Int.natAbs_of_nonneg (by omega)] at hcast

/-- The sort of value that a text begins; both numbers are of one sort. -/
def sort : Value → Nat
  | .null => 0
  | .bool _ => 1
  | .int _ | .float _ => 2
  | .str _ => 3
  | .list _ => 4
  | .dict _ => 5

def sortOf (c : Char) : Nat :=
  if c = 'n' then 0
  else if c = 't' ∨ c = 'f' then 1
  else if inNumber c = true then 2
  else if c = Char.ofNat 34 then 3
  else if c = '[' then 4
  else if c = '\x7b' then 5
  else 6

theorem sortOf_inNumber {c : Char} (h : inNumber c = true) : sortOf c = 2 := by
  have hn : c ≠ 'n' := fun he => by rw [he] at h; exact absurd h (by decide)
  have ht : c ≠ 't' := fun he => by rw [he] at h; exact absurd h (by decide)
  have hf : c ≠ 'f' := fun he => by rw [he] at h; exact absurd h (by decide)
  simp [sortOf, hn, ht, hf, h]

theorem inNumber_intText {n : Int} {c : Char} (h : c ∈ (toString n).toList) :
    inNumber c = true := by
  rw [show toString n = n.repr from rfl, Int.repr_eq_if] at h
  split at h
  · have hd := mem_toString_nat h
    simp [inNumber, hd]
  · rw [String.toList_append, List.mem_append] at h
    rcases h with h | h
    · rw [List.mem_singleton.mp h]
      rfl
    · have hd := mem_toString_nat h
      simp [inNumber, hd]

theorem intText_injective {m n : Int} (h : (toString m).toList = (toString n).toList) :
    m = n := by
  have hnat {i j : Nat} (h : i.repr.toList = j.repr.toList) : i = j := by
    rw [← ofDigitChars_toString i, ← ofDigitChars_toString j]
    exact congrArg (fun t => Nat.ofDigitChars 10 t 0) h
  have hminus (i j : Nat) : i.repr.toList ≠ ("-" ++ j.repr).toList := by
    intro he
    have hmem : '-' ∈ i.repr.toList := by
      rw [he, String.toList_append]
      exact List.mem_cons_self
    exact absurd (mem_toString_nat hmem) (by decide)
  rw [show toString m = m.repr from rfl, show toString n = n.repr from rfl, Int.repr_eq_if,
    Int.repr_eq_if] at h
  by_cases hm : 0 ≤ m
  · by_cases hn : 0 ≤ n
    · rw [if_pos hm, if_pos hn] at h
      have := hnat h
      omega
    · rw [if_pos hm, if_neg hn] at h
      exact absurd h (hminus _ _)
  · by_cases hn : 0 ≤ n
    · rw [if_neg hm, if_pos hn] at h
      exact absurd h.symm (hminus _ _)
    · rw [if_neg hm, if_neg hn, String.toList_append, String.toList_append] at h
      have := hnat (List.append_cancel_left h)
      omega

theorem intText_ne_nil (n : Int) : (toString n).toList ≠ [] := by
  rw [show toString n = n.repr from rfl, Int.repr_eq_if]
  split
  · rw [Nat.toList_repr]
    exact Nat.toDigits_ne_nil
  · simp

theorem floatText_ne_nil (q : Rat) : (floatRepr q).toList ≠ [] := by
  rw [FloatText.toList_floatRepr]
  simp

theorem head_of_inNumber {t : List Char} (hne : t ≠ []) (h : ∀ c ∈ t, inNumber c = true) :
    ∃ c rest, t = c::rest ∧ sortOf c = 2 := by
  obtain ⟨c,rest,rfl⟩ := List.exists_cons_of_ne_nil hne
  exact ⟨c,rest,rfl,sortOf_inNumber (h c List.mem_cons_self)⟩

/-- The first character tells the sort of the value. -/
theorem jsonChars_head (v : Value) : ∃ c rest, v.jsonChars = c::rest ∧ sortOf c = v.sort := by
  cases v with
  | null => exact ⟨_,_,by rw [jsonChars],by decide⟩
  | bool b =>
    cases b with
    | true => exact ⟨_,_,by rw [jsonChars, if_pos rfl],by decide⟩
    | false => exact ⟨_,_,by rw [jsonChars, if_neg (by decide)],by decide⟩
  | int n =>
    rw [jsonChars]
    exact head_of_inNumber (intText_ne_nil n) fun c hc => inNumber_intText hc
  | float q =>
    rw [jsonChars]
    exact head_of_inNumber (floatText_ne_nil q) fun c hc => FloatText.inNumber_floatRepr q hc
  | str s => exact ⟨_,_,by rw [jsonChars, Text.jsonString, String.toList_ofList],by rw [sort]; decide⟩
  | list items =>
    cases items with
    | nil => exact ⟨_,_,by rw [jsonChars],by decide⟩
    | cons v vs => exact ⟨_,_,by rw [jsonChars],by rw [sort]; decide⟩
  | dict fields =>
    cases fields with
    | nil => exact ⟨_,_,by rw [jsonChars],by decide⟩
    | cons f fs =>
      obtain ⟨k,v⟩ := f
      exact ⟨_,_,by rw [jsonChars],by rw [sort]; decide⟩

theorem sort_eq_of_append {v w : Value} {r s : List Char}
    (h : v.jsonChars ++ r = w.jsonChars ++ s) : v.sort = w.sort := by
  obtain ⟨c,rest,hv,hc⟩ := jsonChars_head v
  obtain ⟨d,rest',hw,hd⟩ := jsonChars_head w
  rw [hv, hw, List.cons_append, List.cons_append] at h
  rw [← hc, ← hd, (List.cons.inj h).1]

/-- No value begins with the bracket that closes a list. -/
theorem jsonChars_ne_close (v : Value) (r s : List Char) : v.jsonChars ++ r ≠ ']' :: s := by
  intro h
  obtain ⟨c,rest,hv,hc⟩ := jsonChars_head v
  rw [hv, List.cons_append] at h
  rw [(List.cons.inj h).1] at hc
  cases v <;> exact absurd hc (by simp only [sort]; decide)

theorem jsonString_ne_close (k : String) (r s : List Char) :
    (Text.jsonString k).toList ++ r ≠ '\x7d' :: s := by
  intro h
  rw [Text.jsonString, String.toList_ofList] at h
  exact absurd (List.cons.inj h).1 (by decide)

theorem ends_of_cons {c : Char} {r : List Char} (h : inNumber c = false) :
    Ends inNumber (c::r) := by
  intro d rest he
  rw [← (List.cons.inj he).1]
  exact h

theorem ends_jsonItems (vs : List Value) (r : List Char) :
    Ends inNumber (jsonItems vs ++ r) := by
  cases vs with
  | nil => exact ends_of_cons rfl
  | cons v vs => exact ends_of_cons rfl

theorem ends_jsonFields (kvs : List (String × Value)) (r : List Char) :
    Ends inNumber (jsonFields kvs ++ r) := by
  cases kvs with
  | nil => exact ends_of_cons rfl
  | cons f fs => exact ends_of_cons rfl

/-- An integer and a float have no text in common. -/
theorem intText_ne_floatText {n : Int} {q : Rat} : (toString n).toList ≠ (floatRepr q).toList := by
  intro h
  have hdot : '.' ∈ (toString n).toList := by
    rw [h, FloatText.toList_floatRepr]
    simp
  have hnat : ∀ m : Nat, '.' ∉ (toString m).toList :=
    fun m hm => absurd (mem_toString_nat hm) (by decide)
  have hrepr : '.' ∈ n.repr.toList := hdot
  rw [Int.repr_eq_if] at hrepr
  split at hrepr
  · exact hnat _ hrepr
  · rw [String.toList_append, List.mem_append] at hrepr
    rcases hrepr with hsign | hdigits
    · exact absurd hsign (by decide)
    · exact hnat _ hdigits

mutual
/-- Texts of values that are followed by no character of a number are cut in one way. -/
theorem jsonChars_unique : ∀ (v : Value) {w : Value} {r s : List Char}, v.Decimal → w.Decimal →
    Ends inNumber r → Ends inNumber s → v.jsonChars ++ r = w.jsonChars ++ s → v = w ∧ r = s
  | .null, w, r, s, _, _, _, _, h => by
    have hsort := sort_eq_of_append h
    cases w with
    | null => exact ⟨rfl,List.append_cancel_left h⟩
    | _ => exact absurd hsort (by simp [sort])
  | .bool b, w, r, s, _, _, _, _, h => by
    have hsort := sort_eq_of_append h
    cases w with
    | bool b' =>
      cases b <;> cases b' <;> simp only [jsonChars] at h
      · exact ⟨rfl,List.append_cancel_left h⟩
      · exact absurd (List.cons.inj h).1 (by decide)
      · exact absurd (List.cons.inj h).1 (by decide)
      · exact ⟨rfl,List.append_cancel_left h⟩
    | _ => exact absurd hsort (by simp [sort])
  | .int n, w, r, s, _, _, hr, hs, h => by
    have hsort := sort_eq_of_append h
    cases w with
    | int m =>
      rw [jsonChars, jsonChars] at h
      obtain ⟨htext,hrest⟩ := token_unique (fun c hc => inNumber_intText hc)
        (fun c hc => inNumber_intText hc) hr hs h
      exact ⟨by rw [intText_injective htext],hrest⟩
    | float q =>
      rw [jsonChars, jsonChars] at h
      exact absurd (token_unique (fun c hc => inNumber_intText hc)
        (fun c hc => FloatText.inNumber_floatRepr q hc) hr hs h).1 intText_ne_floatText
    | _ => exact absurd hsort (by simp [sort])
  | .float q, w, r, s, hv, hw, hr, hs, h => by
    have hsort := sort_eq_of_append h
    cases w with
    | int m =>
      rw [jsonChars, jsonChars] at h
      exact absurd (token_unique (fun c hc => FloatText.inNumber_floatRepr q hc)
        (fun c hc => inNumber_intText hc) hr hs h).1.symm intText_ne_floatText
    | float q' =>
      rw [jsonChars, jsonChars] at h
      rw [Decimal] at hv hw
      obtain ⟨htext,hrest⟩ := token_unique (fun c hc => FloatText.inNumber_floatRepr q hc)
        (fun c hc => FloatText.inNumber_floatRepr q' hc) hr hs h
      exact ⟨by rw [floatRepr_injective hv hw (String.toList_injective htext)],hrest⟩
    | _ => exact absurd hsort (by simp [sort])
  | .str t, w, r, s, _, _, _, _, h => by
    have hsort := sort_eq_of_append h
    cases w with
    | str u =>
      rw [jsonChars, jsonChars] at h
      obtain ⟨heq,hrest⟩ := Text.jsonString_selfDelimiting t u r s h
      exact ⟨by rw [heq],hrest⟩
    | _ => exact absurd hsort (by simp [sort])
  | .list [], w, r, s, _, _, _, _, h => by
    have hsort := sort_eq_of_append h
    cases w with
    | list ws =>
      cases ws with
      | nil => exact ⟨rfl,List.append_cancel_left h⟩
      | cons w ws =>
        simp only [jsonChars, List.cons_append, List.append_assoc] at h
        exact absurd (List.cons.inj h).2.symm (jsonChars_ne_close w _ _)
    | _ => exact absurd hsort (by simp [sort])
  | .list (v::vs), w, r, s, hv, hw, _, _, h => by
    have hsort := sort_eq_of_append h
    cases w with
    | list ws =>
      cases ws with
      | nil =>
        simp only [jsonChars, List.cons_append, List.append_assoc] at h
        exact absurd (List.cons.inj h).2 (jsonChars_ne_close v _ _)
      | cons w ws =>
        rw [jsonChars, jsonChars, List.cons_append, List.cons_append, List.append_assoc,
          List.append_assoc] at h
        rw [Decimal, DecimalItems] at hv hw
        obtain ⟨heq,hrest⟩ := jsonChars_unique v hv.1 hw.1 (ends_jsonItems vs r)
          (ends_jsonItems ws s) (List.cons.inj h).2
        obtain ⟨hitems,hend⟩ := jsonItems_unique vs hv.2 hw.2 hrest
        exact ⟨by rw [heq, hitems],hend⟩
    | _ => exact absurd hsort (by simp [sort])
  | .dict [], w, r, s, _, _, _, _, h => by
    have hsort := sort_eq_of_append h
    cases w with
    | dict ws =>
      cases ws with
      | nil => exact ⟨rfl,List.append_cancel_left h⟩
      | cons f fs =>
        obtain ⟨l,w⟩ := f
        simp only [jsonChars, List.cons_append, List.append_assoc] at h
        exact absurd (List.cons.inj h).2.symm (jsonString_ne_close l _ _)
    | _ => exact absurd hsort (by simp [sort])
  | .dict ((k,v)::kvs), w, r, s, hv, hw, _, _, h => by
    have hsort := sort_eq_of_append h
    cases w with
    | dict ws =>
      cases ws with
      | nil =>
        simp only [jsonChars, List.cons_append, List.append_assoc] at h
        exact absurd (List.cons.inj h).2 (jsonString_ne_close k _ _)
      | cons f fs =>
        obtain ⟨l,w⟩ := f
        simp only [jsonChars, List.cons_append, List.append_assoc] at h
        rw [Decimal, DecimalFields] at hv hw
        obtain ⟨hkey,hvalue⟩ := Text.jsonString_selfDelimiting k l _ _ (List.cons.inj h).2
        obtain ⟨heq,hrest⟩ := jsonChars_unique v hv.1 hw.1 (ends_jsonFields kvs r)
          (ends_jsonFields fs s) (List.cons.inj (List.cons.inj hvalue).2).2
        obtain ⟨hfields,hend⟩ := jsonFields_unique kvs hv.2 hw.2 hrest
        exact ⟨by rw [hkey, heq, hfields],hend⟩
    | _ => exact absurd hsort (by simp [sort])

theorem jsonItems_unique : ∀ (vs : List Value) {ws : List Value} {r s : List Char},
    DecimalItems vs → DecimalItems ws → jsonItems vs ++ r = jsonItems ws ++ s → vs = ws ∧ r = s
  | [], ws, r, s, _, _, h => by
    cases ws with
    | nil => exact ⟨rfl,List.append_cancel_left h⟩
    | cons w ws => exact absurd (List.cons.inj h).1 (by decide)
  | v::vs, ws, r, s, hv, hw, h => by
    cases ws with
    | nil => exact absurd (List.cons.inj h).1 (by decide)
    | cons w ws =>
      simp only [jsonItems, List.cons_append, List.append_assoc] at h
      rw [DecimalItems] at hv hw
      obtain ⟨heq,hrest⟩ := jsonChars_unique v hv.1 hw.1 (ends_jsonItems vs r)
        (ends_jsonItems ws s) (List.cons.inj (List.cons.inj h).2).2
      obtain ⟨hitems,hend⟩ := jsonItems_unique vs hv.2 hw.2 hrest
      exact ⟨by rw [heq, hitems],hend⟩

theorem jsonFields_unique : ∀ (kvs : List (String × Value)) {fs : List (String × Value)}
    {r s : List Char}, DecimalFields kvs → DecimalFields fs →
    jsonFields kvs ++ r = jsonFields fs ++ s → kvs = fs ∧ r = s
  | [], fs, r, s, _, _, h => by
    cases fs with
    | nil => exact ⟨rfl,List.append_cancel_left h⟩
    | cons f fs => exact absurd (List.cons.inj h).1 (by decide)
  | (k,v)::kvs, fs, r, s, hv, hw, h => by
    cases fs with
    | nil => exact absurd (List.cons.inj h).1 (by decide)
    | cons f fs =>
      obtain ⟨l,w⟩ := f
      simp only [jsonFields, List.cons_append, List.append_assoc] at h
      rw [DecimalFields] at hv hw
      obtain ⟨hkey,hvalue⟩ := Text.jsonString_selfDelimiting k l _ _
        (List.cons.inj (List.cons.inj h).2).2
      obtain ⟨heq,hrest⟩ := jsonChars_unique v hv.1 hw.1 (ends_jsonFields kvs r)
        (ends_jsonFields fs s) (List.cons.inj (List.cons.inj hvalue).2).2
      obtain ⟨hfields,hend⟩ := jsonFields_unique kvs hv.2 hw.2 hrest
      exact ⟨by rw [hkey, heq, hfields],hend⟩
end

theorem ends_nil : Ends inNumber [] := by
  intro c rest h
  cases h

/-- A value can be read off its text. -/
theorem dumps_injective {v w : Value} (hv : v.Decimal) (hw : w.Decimal) (h : v.dumps = w.dumps) :
    v = w := by
  have hchars : v.jsonChars ++ [] = w.jsonChars ++ [] := by
    rw [List.append_nil, List.append_nil]
    exact String.ofList_injective h
  exact (jsonChars_unique v hv hw ends_nil ends_nil hchars).1

example : dumps (.dict [("user",.str "a\"b"),("n",.list [.int (-3),.float (5/2),.null])]) =
    "\x7b\"user\": \"a\\\"b\", \"n\": [-3, 2.5, null]\x7d" := by decide +kernel

end NexusEtl.Value
