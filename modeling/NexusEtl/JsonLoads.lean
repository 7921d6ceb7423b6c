import NexusEtl.JsonDumps
import NexusEtl.JsonText
import NexusEtl.FingerprintSkip
import NexusEtl.Library.Scanners

/-!
# Reading JSON texts

`json.loads` as a scanner: blanks between the tokens, strings with their escapes, numbers and
nested documents. It reads the text of every writer of the repository, with and without
non-ASCII characters, on one line or indented, as the value that was written.
-/

set_option autoImplicit false

namespace NexusEtl.Json
open NexusEtl.Library NexusEtl.Text

def blank (c : Char) : Bool := c == ' ' || c == '\t' || c == '\n' || c == '\r'

/-! ## Strings -/

def hexValue (c : Char) : Option Nat :=
  if c.isDigit then some (c.toNat - 48)
  else if 'a' ≤ c ∧ c ≤ 'f' then some (c.toNat - 87)
  else if 'A' ≤ c ∧ c ≤ 'F' then some (c.toNat - 55)
  else none

def scanHex4 : Scanner Char Nat
  | a::b::c::d::cs =>
    match hexValue a, hexValue b, hexValue c, hexValue d with
    | some a, some b, some c, some d => some (((a*16+b)*16+c)*16+d,cs)
    | _, _, _, _ => none
  | _ => none

/-- The character of a code; half a surrogate pair is none here. -/
def charOf (code : Nat) : Option Char :=
  if code.isValidChar then some (Char.ofNat code) else none

/-- What follows the letter `u`: one code, or the two halves of a pair. -/
def scanUnicode (cs : List Char) : Option (Char × List Char) :=
  match scanHex4 cs with
  | none => none
  | some (high,rest) =>
    match rest with
    | c :: 'u' :: rest' =>
      if c = Char.ofNat 92 ∧ 0xd800 ≤ high ∧ high ≤ 0xdbff then
        match scanHex4 rest' with
        | none => none
        | some (low,rest'') =>
          if 0xdc00 ≤ low ∧ low ≤ 0xdfff then
            (charOf (0x10000 + ((high - 0xd800) * 1024 + (low - 0xdc00)))).map (·,rest'')
          else (charOf high).map (·,rest)
      else (charOf high).map (·,rest)
    | _ => (charOf high).map (·,rest)

def shortEscape (letter : Char) : Option Char :=
  if letter = '/' then some '/'
  else (jsonEscapes.find? fun e => e.2 == letter).map fun e => Char.ofNat e.1

/-- One character between the quotes; control characters must be escaped. -/
def scanChar : Scanner Char Char
  | [] => none
  | c::cs =>
    if c = Char.ofNat 92 then
      match cs with
      | [] => none
      | letter::rest =>
        if letter = 'u' then scanUnicode rest else (shortEscape letter).map (·,rest)
    else if c.toNat < 32 then none
    else some (c,cs)

/-- What follows the opening quote. -/
def scanString (cs : List Char) : Option (String × List Char) :=
  (untilStop quote scanChar (cs.length + 1) cs).map fun out => (String.ofList out.1,out.2)

theorem hexValue_hexDigit : ∀ n < 16, hexValue (hexDigit n) = some n := by decide

theorem scanHex4_hex4 {n : Nat} (hn : n < 65536) (rest : List Char) :
    scanHex4 (hex4 n ++ rest) = some (n,rest) := by
  simp only [hex4, List.cons_append, List.nil_append, scanHex4,
    hexValue_hexDigit _ (Nat.mod_lt _ (by decide))]
  congr 2
  omega

theorem charOf_toNat (c : Char) : charOf c.toNat = some c := by
  have hvalid : c.toNat.isValidChar := c.valid
  rw [charOf, if_pos hvalid, Char.ofNat_toNat]

theorem scanUnicode_hex4 {c : Char} (hlt : c.toNat < 0x10000) (rest : List Char) :
    scanUnicode (hex4 c.toNat ++ rest) = some (c,rest) := by
  have hrange : ¬(0xd800 ≤ c.toNat ∧ c.toNat ≤ 0xdbff) := by
    have hvalid : c.toNat < 0xd800 ∨ 0xdfff < c.toNat ∧ c.toNat < 0x110000 := c.valid
    omega
  unfold scanUnicode
  simp only [scanHex4_hex4 hlt, charOf_toNat, Option.map_some]
  split
  · rw [if_neg fun h => hrange h.2]
  · rfl

theorem scanUnicode_pair {c : Char} {n : Nat} (hc : c.toNat = 0x10000 + n) (hn : n < 0x100000)
    (rest : List Char) :
    scanUnicode (hex4 (0xd800 + n / 1024) ++ unicodeEscape (0xdc00 + n % 1024) ++ rest) =
      some (c,rest) := by
  have hhigh : 0xd800 ≤ 0xd800 + n / 1024 ∧ 0xd800 + n / 1024 ≤ 0xdbff := by omega
  have hlow : 0xdc00 ≤ 0xdc00 + n % 1024 ∧ 0xdc00 + n % 1024 ≤ 0xdfff := by omega
  have hcode : 0x10000 + ((0xd800 + n / 1024 - 0xd800) * 1024 + (0xdc00 + n % 1024 - 0xdc00)) =
      c.toNat := by omega
  rw [List.append_assoc]
  unfold scanUnicode
  simp only [scanHex4_hex4 (show 0xd800 + n / 1024 < 65536 by omega), unicodeEscape,
    List.cons_append, scanHex4_hex4 (show 0xdc00 + n % 1024 < 65536 by omega)]
  rw [if_pos ⟨trivial,hhigh⟩, if_pos hlow, hcode, charOf_toNat, Option.map_some]

theorem shortEscape_letter : ∀ e ∈ jsonEscapes, shortEscape e.2 = some (Char.ofNat e.1) := by
  decide

theorem scanChar_short {c : Char} {e : Nat × Char} (he : e ∈ jsonEscapes) (hec : e.1 = c.toNat)
    (rest : List Char) : scanChar ([Char.ofNat 92,e.2] ++ rest) = some (c,rest) := by
  have hlong : ∀ e ∈ jsonEscapes, e.2 ≠ 'u' := by decide
  simp only [List.cons_append, List.nil_append, scanChar, if_true, if_neg (hlong e he),
    shortEscape_letter e he, Option.map_some, hec, Char.ofNat_toNat]

theorem scanChar_unicode (cs : List Char) :
    scanChar (Char.ofNat 92 :: 'u' :: cs) = scanUnicode cs := by
  simp only [scanChar, if_true]

theorem scans_jsonEscape (c : Char) : Scans scanChar Anything (jsonEscape c) c := by
  intro rest _
  rcases jsonEscape_cases c with ⟨e,he,hec,hc⟩ | ⟨hlt,hc⟩ | ⟨hne,hc⟩ <;> rw [hc]
  · exact scanChar_short he hec rest
  · have hzero : hexDigit 0 = '0' := by decide
    have hhex : [Char.ofNat 92,'u','0','0',hexDigit (c.toNat / 16),hexDigit (c.toNat % 16)] =
        Char.ofNat 92 :: 'u' :: hex4 c.toNat := by
      rw [hex4, show c.toNat / 4096 % 16 = 0 by omega, show c.toNat / 256 % 16 = 0 by omega,
        show c.toNat / 16 % 16 = c.toNat / 16 by omega, hzero]
    rw [hhex, List.cons_append, List.cons_append, scanChar_unicode]
    exact scanUnicode_hex4 (by omega) rest
  · have hprint : ¬c.toNat < 32 := by
      intro hlt
      have hlen := congrArg List.length hc
      unfold jsonEscape at hlen
      split at hlen
      · simp at hlen
      · rw [if_pos hlt] at hlen
        simp at hlen
    simp only [List.cons_append, List.nil_append, scanChar, if_neg hne, if_neg hprint]

theorem scans_asciiEscape (c : Char) : Scans scanChar Anything (asciiEscape c) c := by
  intro rest _
  have hprint : asciiEscape c = [c] → ¬c.toNat < 32 := by
    intro hc hlt
    have hlen := congrArg List.length hc
    unfold asciiEscape at hlen
    split at hlen
    · simp at hlen
    · rw [if_neg (by omega), if_pos (by omega)] at hlen
      simp [unicodeEscape, hex4] at hlen
  rcases asciiEscape_cases c with ⟨e,he,hec,hc⟩ | ⟨hne,-,hc⟩ | ⟨hlt,-,hc⟩ | ⟨n,hn,hbound,hc⟩
  · rw [hc]
    exact scanChar_short he hec rest
  · have hge := hprint hc
    rw [hc]
    simp only [List.cons_append, List.nil_append, scanChar, if_neg hne, if_neg hge]
  · rw [hc, unicodeEscape, List.cons_append, List.cons_append, scanChar_unicode]
    exact scanUnicode_hex4 hlt rest
  · rw [hc, unicodeEscape, List.append_assoc, List.cons_append, List.cons_append,
      scanChar_unicode, ← List.append_assoc]
    exact scanUnicode_pair hn hbound rest

theorem startsOtherThan_jsonEscape : StartsOtherThan jsonEscape quote := by
  intro c
  rcases jsonEscape_cases c with ⟨e,_,_,hc⟩ | ⟨_,hc⟩ | ⟨_,hc⟩
  · exact ⟨_,_,hc,by decide⟩
  · exact ⟨_,_,hc,by decide⟩
  · refine ⟨_,_,hc,?_⟩
    rintro rfl
    exact absurd hc (by decide)

theorem startsOtherThan_asciiEscape : StartsOtherThan asciiEscape quote := by
  intro c
  rcases asciiEscape_cases c with ⟨e,_,_,hc⟩ | ⟨_,hne,hc⟩ | ⟨_,_,hc⟩ | ⟨n,_,_,hc⟩
  · exact ⟨_,_,hc,by decide⟩
  · exact ⟨_,_,hc,hne⟩
  · exact ⟨_,_,hc,by decide⟩
  · exact ⟨_,_,hc,by decide⟩

/-- A text between quotes is read back from the words of its characters. -/
theorem scanString_terminated {escape : Char → List Char}
    (h : ∀ c, Scans scanChar Anything (escape c) c) (hstop : StartsOtherThan escape quote)
    (s : String) (rest : List Char) :
    scanString (terminated quote escape s.toList ++ rest) = some (s,rest) := by
  have hlen := length_le_terminated hstop s.toList
  have hfuel : s.toList.length < (terminated quote escape s.toList ++ rest).length + 1 := by
    rw [List.length_append]
    omega
  have hscan := Scans.untilStop h hstop hfuel rest trivial
  rw [scanString, hscan, Option.map_some, String.ofList_toList]

/-! ## Numbers -/

/-- What goes on with a number. -/
def inNumeral (c : Char) : Bool := c.isDigit || c == '.' || c == 'e' || c == 'E'

/-- The digits before the point: a single zero, or digits that begin with another one. -/
def scanWhole : Scanner Char (List Char)
  | [] => none
  | c::cs =>
    if c = '0' then some (['0'],cs)
    else if c.isDigit then some (c::cs.takeWhile Char.isDigit,cs.dropWhile Char.isDigit)
    else none

/-- `(\.\d+)?` -/
def scanFraction (cs : List Char) : Option (List Char) × List Char :=
  match cs with
  | '.'::rest =>
    let digits := rest.takeWhile Char.isDigit
    if digits.isEmpty then (none,cs) else (some digits,rest.dropWhile Char.isDigit)
  | _ => (none,cs)

/-- `([eE][-+]?\d+)?` -/
def scanExponent (cs : List Char) : Option Int × List Char :=
  match cs with
  | [] => (none,cs)
  | e::rest =>
    let body := dropSign rest
    let digits := body.takeWhile Char.isDigit
    if (e = 'e' ∨ e = 'E') ∧ digits ≠ [] then
      let n : Int := Nat.ofDigitChars 10 digits 0
      (some (if rest.head? = some '-' then -n else n),body.dropWhile Char.isDigit)
    else (none,cs)

/-- The number with these digits before and behind the point. -/
def decimal (negative : Bool) (whole fraction : List Char) (exponent : Int) : Rat :=
  let digits : Int := Nat.ofDigitChars 10 (whole ++ fraction) 0
  let signed := if negative then -digits else digits
  if 0 ≤ exponent then mkRat (signed * 10^exponent.toNat) (10^fraction.length)
  else mkRat signed (10^(fraction.length + exponent.natAbs))

/-- An integer, or a float where the numeral has a fraction or an exponent. -/
def scanUnsigned (negative : Bool) (cs : List Char) : Option (Value × List Char) :=
  match scanWhole cs with
  | none => none
  | some (whole,rest) =>
    let n : Int := Nat.ofDigitChars 10 whole 0
    match scanFraction rest with
    | (fraction,rest) =>
      match fraction, scanExponent rest with
      | none, (none,rest) => some (.int (if negative then -n else n),rest)
      | fraction, (exponent,rest) =>
        some (.float (decimal negative whole (fraction.getD []) (exponent.getD 0)),rest)

def scanNumber : Scanner Char Value
  | '-'::cs => scanUnsigned true cs
  | cs => scanUnsigned false cs

theorem head_toDigits {n : Nat} (hn : 0 < n) : ∃ c cs, Nat.toDigits 10 n = c::cs ∧ c ≠ '0' := by
  induction n using Nat.strongRecOn with
  | ind n ih =>
    by_cases hlt : n < 10
    · refine ⟨n.digitChar,[],Nat.toDigits_of_lt_base hlt,?_⟩
      have hdigits : ∀ m < 10, 0 < m → m.digitChar ≠ '0' := by decide
      exact hdigits n hlt hn
    · obtain ⟨c,cs,hcs,hc⟩ := ih (n / 10) (by omega) (by omega)
      rw [Nat.toDigits_of_base_le (by decide) (by omega), hcs]
      exact ⟨c,_,rfl,hc⟩

/-- The digits of a number are all read, since no other number than zero begins with a zero. -/
theorem scanWhole_toString (n : Nat) {rest : List Char} (hrest : Ends Char.isDigit rest) :
    scanWhole ((toString n).toList ++ rest) = some ((toString n).toList,rest) := by
  have hdigits : ∀ c ∈ (toString n).toList, c.isDigit = true :=
    fun c hc => Value.mem_toString_nat hc
  rcases Nat.eq_zero_or_pos n with rfl | hn
  · rfl
  · obtain ⟨c,cs,hcs,hc⟩ := head_toDigits hn
    have htext : (toString n).toList = c::cs := by
      rw [show toString n = n.repr from rfl, Nat.toList_repr, hcs]
    rw [htext] at hdigits ⊢
    have htail : ∀ d ∈ cs, d.isDigit = true := fun d hd => hdigits d (List.mem_cons_of_mem c hd)
    rw [List.cons_append, scanWhole, if_neg hc, if_pos (hdigits c List.mem_cons_self),
      takeWhile_word htail hrest, dropWhile_word htail hrest]

theorem ends_digit {rest : List Char} (h : Ends inNumeral rest) : Ends Char.isDigit rest := by
  intro c rest' heq
  have hc := h c rest' heq
  simp only [inNumeral, Bool.or_eq_false_iff] at hc
  exact hc.1.1.1

theorem scanFraction_none {rest : List Char} (h : Ends inNumeral rest) :
    scanFraction rest = (none,rest) := by
  unfold scanFraction
  split
  · exact absurd (h _ _ rfl) (by decide)
  · rfl

theorem scanExponent_none {rest : List Char} (h : Ends inNumeral rest) :
    scanExponent rest = (none,rest) := by
  unfold scanExponent
  split
  · rfl
  · rename_i e rest
    have he : ¬(e = 'e' ∨ e = 'E') := by
      rintro (rfl | rfl) <;> exact absurd (h _ _ rfl) (by decide)
    simp only [he, false_and, if_false]

theorem scanUnsigned_int (negative : Bool) (n : Nat) {rest : List Char}
    (h : Ends inNumeral rest) :
    scanUnsigned negative ((toString n).toList ++ rest) =
      some (.int (if negative then -(n : Int) else n),rest) := by
  unfold scanUnsigned
  simp only [scanWhole_toString n (ends_digit h), scanFraction_none h, scanExponent_none h,
    Value.ofDigitChars_toString]

theorem scanUnsigned_float (negative : Bool) (n : Nat) {fraction rest : List Char}
    (hdigits : ∀ c ∈ fraction, c.isDigit = true) (hne : fraction ≠ [])
    (h : Ends inNumeral rest) :
    scanUnsigned negative ((toString n).toList ++ '.'::(fraction ++ rest)) =
      some (.float (decimal negative (toString n).toList fraction 0),rest) := by
  have hpoint : Ends Char.isDigit ('.'::(fraction ++ rest)) := Ends.cons (by decide) _
  have hfraction : scanFraction ('.'::(fraction ++ rest)) = (some fraction,rest) := by
    simp only [scanFraction, takeWhile_word hdigits (ends_digit h),
      dropWhile_word hdigits (ends_digit h)]
    rw [if_neg (by simpa using hne)]
  unfold scanUnsigned
  simp only [scanWhole_toString n hpoint, hfraction, scanExponent_none h, Option.getD_some,
    Option.getD_none]

/-- What begins with a digit is a number without a sign. -/
theorem scanNumber_toString (n : Nat) (rest : List Char) :
    scanNumber ((toString n).toList ++ rest) = scanUnsigned false ((toString n).toList ++ rest) := by
  have hne : (toString n).toList ≠ [] := by
    rw [show toString n = n.repr from rfl, Nat.toList_repr]
    exact Nat.toDigits_ne_nil
  obtain ⟨c,cs,hcs⟩ := List.exists_cons_of_ne_nil hne
  have hc : c.isDigit = true := Value.mem_toString_nat (n := n) (by rw [hcs]; exact List.mem_cons_self)
  rw [hcs, List.cons_append]
  unfold scanNumber
  split
  · rename_i heq
    rw [(List.cons.inj heq).1] at hc
    exact absurd hc (by decide)
  · rfl

theorem scans_int (n : Int) :
    Scans scanNumber (Ends inNumeral) (toString n).toList (.int n) := by
  intro rest hrest
  rw [show toString n = n.repr from rfl, Int.repr_eq_if]
  by_cases hn : 0 ≤ n
  · rw [if_pos hn, show n.toNat.repr = toString n.toNat from rfl, scanNumber_toString,
      scanUnsigned_int false _ hrest]
    simp only [Bool.false_eq_true, if_false, Int.toNat_of_nonneg hn]
  · rw [if_neg hn, String.toList_append, show (-n).toNat.repr = toString (-n).toNat from rfl]
    show scanUnsigned true ((toString (-n).toNat).toList ++ rest) = _
    rw [scanUnsigned_int true _ hrest, if_pos rfl, Int.toNat_of_nonneg (by omega), Int.neg_neg]

open Value FloatText in
/-- The digits of a decimal number, with the point taken out. -/
theorem ofDigitChars_text (q : Rat) :
    Nat.ofDigitChars 10 ((toString (scaled q / 10^places q)).toList ++ fraction q) 0 *
      10^places q = scaled q * 10^(fraction q).length := by
  have hparts := Nat.div_add_mod (scaled q) (10^places q)
  rw [Nat.ofDigitChars_append, ofDigitChars_toString, Nat.ofDigitChars_eq_ofDigitChars_zero,
    ofDigitChars_fraction, length_fraction]
  rcases Nat.eq_zero_or_pos (places q) with hzero | hpos
  · simp only [hzero, pow_zero, Nat.mod_one, Nat.div_one, Nat.add_zero, Nat.mul_one]
    exact Nat.mul_comm _ _
  · rw [Nat.max_eq_right hpos, hparts]

open Value FloatText in
/-- The text of a decimal number is the number. -/
theorem decimal_text {q : Rat} (h : 10^400 % q.den = 0) :
    decimal (decide (q.num < 0)) (toString (scaled q / 10^places q)).toList (fraction q) 0 =
      q := by
  have hdigits := ofDigitChars_text q
  have hscaled := scaled_mul_den h
  unfold decimal
  generalize Nat.ofDigitChars 10 _ 0 = digits at hdigits ⊢
  have hsize : digits * q.den = q.num.natAbs * 10^(fraction q).length := by
    apply Nat.eq_of_mul_eq_mul_right (Nat.pow_pos (n := places q) (show 0 < 10 by decide))
    calc digits * q.den * 10^places q
        = digits * 10^places q * q.den := by ring
      _ = scaled q * q.den * 10^(fraction q).length := by rw [hdigits]; ring
      _ = q.num.natAbs * 10^(fraction q).length * 10^places q := by rw [hscaled]; ring
  have hcast : (digits : Int) * q.den = q.num.natAbs * (10^(fraction q).length : Nat) := by
    exact_mod_cast hsize
  dsimp only
  rw [if_pos (Int.le_refl 0), Int.toNat_zero, pow_zero, Int.mul_one]
  conv_rhs => rw [← Rat.mkRat_self q]
  rw [Rat.mkRat_eq_iff (Nat.ne_of_gt (Nat.pow_pos (by decide))) q.den_nz]
  by_cases hneg : q.num < 0
  · rw [decide_eq_true hneg, if_pos rfl, Int.neg_mul, hcast,
      Int.ofNat_natAbs_of_nonpos (by omega), Int.neg_mul, Int.neg_neg]
  · rw [decide_eq_false hneg, if_neg (by decide), hcast, Int.natAbs_of_nonneg (by omega)]

open Value FloatText in
theorem scans_float {q : Rat} (h : 10^400 % q.den = 0) :
    Scans scanNumber (Ends inNumeral) (floatRepr q).toList (.float q) := by
  intro rest hrest
  have hne : fraction q ≠ [] := by
    intro hnil
    have hlength := length_fraction q
    rw [hnil, List.length_nil] at hlength
    omega
  have hunsigned := scanUnsigned_float (decide (q.num < 0)) (scaled q / 10^places q)
    (fun c hc => fraction_digits q hc) hne hrest
  rw [decimal_text h] at hunsigned
  rw [toList_floatRepr, sign]
  by_cases hneg : q.num < 0
  · rw [decide_eq_true hneg] at hunsigned
    rw [if_pos hneg, List.append_assoc, List.append_assoc, List.cons_append, List.cons_append,
      List.nil_append, scanNumber]
    exact hunsigned
  · rw [decide_eq_false hneg] at hunsigned
    rw [if_neg hneg, List.nil_append, List.append_assoc, List.cons_append, scanNumber_toString]
    exact hunsigned

/-! ## Documents -/

def scanWord (word : List Char) (v : Value) (cs : List Char) : Option (Value × List Char) :=
  if word.isPrefixOf cs then some (v,cs.drop word.length) else none

/-- A key, the colon and the value. -/
def scanField (scan : Scanner Char Value) : Scanner Char (String × Value)
  | [] => none
  | c::cs =>
    if c = quote then
      match scanString cs with
      | none => none
      | some (key,rest) =>
        match rest.dropWhile blank with
        | [] => none
        | c::rest =>
          if c = ':' then (scan (rest.dropWhile blank)).map fun out => ((key,out.1),out.2)
          else none
    else none

/-- What follows an opening bracket. -/
def scanListed {α : Type} (stop : Char) (scan : Scanner Char α) (cs : List Char) :
    Option (List α × List Char) :=
  match cs.dropWhile blank with
  | [] => none
  | c::rest => if c = stop then some ([],rest) else listed blank ',' stop scan (rest.length + 2) (c::rest)

/-- The last value of a key is the one that counts. -/
def objectOf (pairs : List (String × Value)) : Value := .dict (Dict.update [] pairs)

def scanValue : Nat → Scanner Char Value
  | 0, _ => none
  | _+1, [] => none
  | fuel+1, c::cs =>
    if c = quote then (scanString cs).map fun out => (.str out.1,out.2)
    else if c = '\x7b' then
      (scanListed '\x7d' (scanField (scanValue fuel)) cs).map fun out => (objectOf out.1,out.2)
    else if c = '[' then
      (scanListed ']' (scanValue fuel) cs).map fun out => (.list out.1,out.2)
    else if c = 'n' then scanWord ['n','u','l','l'] .null (c::cs)
    else if c = 't' then scanWord ['t','r','u','e'] (.bool true) (c::cs)
    else if c = 'f' then scanWord ['f','a','l','s','e'] (.bool false) (c::cs)
    else scanNumber (c::cs)

/-- `json.loads`: one document with blanks around it. There is none where the text is no JSON or
holds what is no value here, as half a surrogate pair or a number that is not finite. -/
def loads (text : String) : Option Value :=
  let cs := text.toList.dropWhile blank
  match scanValue (cs.length + 1) cs with
  | some (v,rest) => if (rest.dropWhile blank).isEmpty then some v else none
  | none => none

/-! ## What is read has distinct keys -/

theorem mem_scanListed {α : Type} {stop : Char} {scan : Scanner Char α} {cs rest : List Char}
    {l : List α} (h : scanListed stop scan cs = some (l,rest)) {a : α} (ha : a ∈ l) :
    ∃ cs rest, scan cs = some (a,rest) := by
  unfold scanListed at h
  split at h
  · cases h
  · split at h
    · rw [← (Prod.mk.inj (Option.some.inj h)).1] at ha
      cases ha
    · exact mem_listed h ha

theorem scanField_value {scan : Scanner Char Value} {cs rest : List Char} {f : String × Value}
    (h : scanField scan cs = some (f,rest)) : ∃ cs rest, scan cs = some (f.2,rest) := by
  unfold scanField at h
  split at h
  · cases h
  · split at h
    · split at h
      · cases h
      · split at h
        · cases h
        · split at h
          · obtain ⟨out,hout,heq⟩ := Option.map_eq_some_iff.mp h
            rw [← (Prod.mk.inj heq).1]
            exact ⟨_,_,hout⟩
          · cases h
    · cases h

theorem distinctItems_of_forall {items : List Value} (h : ∀ v ∈ items, v.DistinctKeys) :
    Value.DistinctItems items := by
  induction items with
  | nil => trivial
  | cons v items ih =>
    exact ⟨h v List.mem_cons_self,ih fun w hw => h w (List.mem_cons_of_mem v hw)⟩

theorem distinctFields_of_forall {fields : List (String × Value)}
    (h : ∀ f ∈ fields, f.2.DistinctKeys) : Value.DistinctFields fields := by
  induction fields with
  | nil => trivial
  | cons f fields ih =>
    exact ⟨h f List.mem_cons_self,ih fun g hg => h g (List.mem_cons_of_mem f hg)⟩

theorem objectOf_distinctKeys {pairs : List (String × Value)}
    (h : ∀ f ∈ pairs, f.2.DistinctKeys) : (objectOf pairs).DistinctKeys := by
  have hinv : ∀ (pairs : List (String × Value)) (d : Fields), (∀ f ∈ pairs, f.2.DistinctKeys) →
      (Dict.keys d).Nodup → (∀ f ∈ d, f.2.DistinctKeys) →
      (Dict.keys (Dict.update d pairs)).Nodup ∧ ∀ f ∈ Dict.update d pairs, f.2.DistinctKeys := by
    intro pairs
    induction pairs with
    | nil => exact fun d _ hd hvalues => ⟨hd,hvalues⟩
    | cons f pairs ih =>
      intro d hpairs hd hvalues
      apply ih (Dict.set d f.1 f.2) (fun g hg => hpairs g (List.mem_cons_of_mem f hg))
        (Dict.nodup_keys_set hd f.1 f.2)
      intro g hg
      rcases Dict.mem_of_mem_set hg with rfl | hg
      · exact hpairs f List.mem_cons_self
      · exact hvalues g hg
  obtain ⟨hnodup,hvalues⟩ := hinv pairs [] h List.nodup_nil (fun f hf => by cases hf)
  exact ⟨hnodup,distinctFields_of_forall hvalues⟩

theorem scanNumber_distinctKeys {cs rest : List Char} {v : Value}
    (h : scanNumber cs = some (v,rest)) : v.DistinctKeys := by
  have hunsigned : ∀ {negative cs}, scanUnsigned negative cs = some (v,rest) → v.DistinctKeys := by
    intro negative cs h
    unfold scanUnsigned at h
    split at h
    · cases h
    · split at h
      split at h <;> (rw [← (Prod.mk.inj (Option.some.inj h)).1]; trivial)
  unfold scanNumber at h
  split at h
  · exact hunsigned h
  · exact hunsigned h

theorem scanWord_value {word cs rest : List Char} {v w : Value}
    (h : scanWord word v cs = some (w,rest)) : w = v := by
  unfold scanWord at h
  split at h
  · exact (Prod.mk.inj (Option.some.inj h)).1.symm
  · cases h

theorem scanValue_distinctKeys {fuel : Nat} {cs rest : List Char} {v : Value}
    (h : scanValue fuel cs = some (v,rest)) : v.DistinctKeys := by
  induction fuel generalizing cs rest v with
  | zero => cases h
  | succ fuel ih =>
    cases cs with
    | nil => cases h
    | cons c cs =>
      rw [scanValue] at h
      split at h
      · obtain ⟨out,-,heq⟩ := Option.map_eq_some_iff.mp h
        rw [← (Prod.mk.inj heq).1]
        trivial
      · split at h
        · obtain ⟨out,hout,heq⟩ := Option.map_eq_some_iff.mp h
          rw [← (Prod.mk.inj heq).1]
          apply objectOf_distinctKeys
          intro f hf
          obtain ⟨_,_,hfield⟩ := mem_scanListed hout hf
          obtain ⟨_,_,hvalue⟩ := scanField_value hfield
          exact ih hvalue
        · split at h
          · obtain ⟨out,hout,heq⟩ := Option.map_eq_some_iff.mp h
            rw [← (Prod.mk.inj heq).1]
            apply distinctItems_of_forall
            intro w hw
            obtain ⟨_,_,hvalue⟩ := mem_scanListed hout hw
            exact ih hvalue
          · split at h
            · rw [scanWord_value h]
              trivial
            · split at h
              · rw [scanWord_value h]
                trivial
              · split at h
                · rw [scanWord_value h]
                  trivial
                · exact scanNumber_distinctKeys h

/-- Each object of a document that is read has each key once. -/
theorem loads_distinctKeys {text : String} {v : Value} (h : loads text = some v) :
    v.DistinctKeys := by
  simp only [loads] at h
  split at h
  · rename_i w rest hread
    split at h
    · rw [← Option.some.inj h]
      exact scanValue_distinctKeys hread
    · cases h
  · cases h

/-! ## Writers -/

/-- The arguments of `json.dumps` that decide about the layout. -/
structure Style where
  ensureAscii : Bool := true
  indent : Option Nat := none
  /-- The blanks of the separators behind `,` and `:`. -/
  itemGap : Nat := 1
  keyGap : Nat := 1
  deriving DecidableEq, Repr

namespace Style

def escape (style : Style) (c : Char) : List Char :=
  if style.ensureAscii then asciiEscape c else jsonEscape c

def newline (style : Style) (level : Nat) : List Char :=
  match style.indent with
  | none => []
  | some width => '\n'::List.replicate (width * level) ' '

/-- Between a separator and the next item; an indented text has no other blanks there. -/
def gap (style : Style) (level : Nat) : List Char :=
  match style.indent with
  | none => List.replicate style.itemGap ' '
  | some _ => style.newline level

def text (style : Style) (s : String) : List Char :=
  quote::terminated quote style.escape s.toList

def key (style : Style) (k : String) : List Char :=
  style.text k ++ ':'::List.replicate style.keyGap ' '

mutual
def write (style : Style) : Value → Nat → List Char
  | .null, _ => ['n','u','l','l']
  | .bool b, _ => if b then ['t','r','u','e'] else ['f','a','l','s','e']
  | .int n, _ => (toString n).toList
  | .float q, _ => (Value.floatRepr q).toList
  | .str s, _ => style.text s
  | .list [], _ => ['[',']']
  | .list (v::vs), level =>
    '['::(style.newline (level+1) ++ (write style v (level+1) ++ writeItems style vs level))
  | .dict [], _ => ['\x7b','\x7d']
  | .dict ((k,v)::kvs), level =>
    '\x7b'::(style.newline (level+1) ++ (style.key k ++ (write style v (level+1) ++ writeFields style kvs level)))

/-- What follows the first item of a list. -/
def writeItems (style : Style) : List Value → Nat → List Char
  | [], level => style.newline level ++ [']']
  | v::vs, level => ','::(style.gap (level+1) ++ (write style v (level+1) ++ writeItems style vs level))

def writeFields (style : Style) : List (String × Value) → Nat → List Char
  | [], level => style.newline level ++ ['\x7d']
  | (k,v)::kvs, level =>
    ','::(style.gap (level+1) ++ (style.key k ++ (write style v (level+1) ++ writeFields style kvs level)))
end

/-- `json.dumps` in this style. -/
def dumps (style : Style) (v : Value) : String := String.ofList (style.write v 0)

/-! ## What is written is read back -/

theorem scans_escape (style : Style) (c : Char) : Scans scanChar Anything (style.escape c) c := by
  unfold escape
  split
  · exact scans_asciiEscape c
  · exact scans_jsonEscape c

theorem startsOtherThan_escape (style : Style) : StartsOtherThan style.escape quote := by
  intro c
  unfold escape
  split
  · exact startsOtherThan_asciiEscape c
  · exact startsOtherThan_jsonEscape c

theorem scanString_text (style : Style) (s : String) (rest : List Char) :
    scanString (terminated quote style.escape s.toList ++ rest) = some (s,rest) :=
  scanString_terminated style.scans_escape style.startsOtherThan_escape s rest

theorem blank_newline (style : Style) (level : Nat) : ∀ c ∈ style.newline level, blank c = true := by
  intro c hc
  unfold newline at hc
  split at hc
  · cases hc
  · rcases List.mem_cons.mp hc with rfl | hc
    · rfl
    · rw [List.eq_of_mem_replicate hc]
      rfl

theorem blank_gap (style : Style) (level : Nat) : ∀ c ∈ style.gap level, blank c = true := by
  intro c hc
  unfold gap at hc
  split at hc
  · rw [List.eq_of_mem_replicate hc]
    rfl
  · exact style.blank_newline level c hc

theorem writeItems_eq_spaced (style : Style) (vs : List Value) (level : Nat) :
    style.writeItems vs level = spaced ',' ']' (style.gap (level+1)) (style.newline level)
      (fun v => style.write v (level+1)) vs := by
  induction vs with
  | nil => rw [writeItems, spaced]
  | cons v vs ih => rw [writeItems, spaced, ih]

def field (style : Style) (level : Nat) (f : String × Value) : List Char :=
  style.key f.1 ++ style.write f.2 level

theorem writeFields_eq_spaced (style : Style) (kvs : List (String × Value)) (level : Nat) :
    style.writeFields kvs level = spaced ',' '\x7d' (style.gap (level+1)) (style.newline level)
      (style.field (level+1)) kvs := by
  induction kvs with
  | nil => rw [writeFields, spaced]
  | cons f kvs ih =>
    obtain ⟨k,v⟩ := f
    rw [writeFields, spaced, ih, field, List.append_assoc]

/-- The first character tells the sort of the value. -/
theorem write_head (style : Style) (v : Value) (level : Nat) :
    ∃ c rest, style.write v level = c::rest ∧ Value.sortOf c = v.sort := by
  cases v with
  | null => exact ⟨_,_,by rw [write],by decide⟩
  | bool b =>
    cases b with
    | true => exact ⟨_,_,by rw [write, if_pos rfl],by decide⟩
    | false => exact ⟨_,_,by rw [write, if_neg (by decide)],by decide⟩
  | int n =>
    rw [write]
    exact Value.head_of_inNumber (Value.intText_ne_nil n) fun c hc => Value.inNumber_intText hc
  | float q =>
    rw [write]
    exact Value.head_of_inNumber (Value.floatText_ne_nil q)
      fun c hc => Value.FloatText.inNumber_floatRepr q hc
  | str s => exact ⟨_,_,by rw [write, text],by rw [Value.sort]; decide⟩
  | list items =>
    cases items with
    | nil => exact ⟨_,_,by rw [write],by decide⟩
    | cons v vs => exact ⟨_,_,by rw [write],by rw [Value.sort]; decide⟩
  | dict fields =>
    cases fields with
    | nil => exact ⟨_,_,by rw [write],by decide⟩
    | cons f fs =>
      obtain ⟨k,v⟩ := f
      exact ⟨_,_,by rw [write],by rw [Value.sort]; decide⟩

theorem sort_le (v : Value) : v.sort ≤ 5 := by
  cases v <;> exact Nat.le_of_ble_eq_true rfl

/-- No document begins with a blank or with a bracket that closes a list. -/
theorem starts_write {c : Char} {v : Value} (h : Value.sortOf c = v.sort) :
    blank c = false ∧ c ≠ ']' := by
  have hle := sort_le v
  rw [← h] at hle
  refine ⟨?_,?_⟩
  · cases hblank : blank c with
    | false => rfl
    | true =>
      simp only [blank, Bool.or_eq_true, beq_iff_eq] at hblank
      rcases hblank with ((rfl | rfl) | rfl) | rfl <;> exact absurd hle (by decide)
  · rintro rfl
    exact absurd hle (by decide)

theorem scanValue_number {c : Char} (h : Value.sortOf c = 2) (fuel : Nat) (cs : List Char) :
    scanValue (fuel+1) (c::cs) = scanNumber (c::cs) := by
  have hne {d : Char} (hd : Value.sortOf d ≠ 2) : c ≠ d := fun heq => hd (heq ▸ h)
  rw [scanValue, if_neg (hne (by decide)), if_neg (hne (by decide)), if_neg (hne (by decide)),
    if_neg (hne (by decide)), if_neg (hne (by decide)), if_neg (hne (by decide))]

theorem scans_number {t : List Char} {v : Value} (hne : t ≠ [])
    (hmem : ∀ c ∈ t, Value.inNumber c = true) (h : Scans scanNumber (Ends inNumeral) t v)
    (fuel : Nat) : Scans (scanValue (fuel+1)) (Ends inNumeral) t v := by
  intro rest hrest
  obtain ⟨c,cs,rfl,hc⟩ := Value.head_of_inNumber hne hmem
  have hread := h rest hrest
  rw [List.cons_append] at hread ⊢
  rw [scanValue_number hc, hread]

theorem scanWord_append (word : List Char) (v : Value) (rest : List Char) :
    scanWord word v (word ++ rest) = some (v,rest) := by
  have hpre : word.isPrefixOf (word ++ rest) = true := by
    rw [List.isPrefixOf_iff_prefix]
    exact List.prefix_append word rest
  rw [scanWord, if_pos hpre, List.drop_left]

theorem scans_null (fuel : Nat) :
    Scans (scanValue (fuel+1)) (Ends inNumeral) ['n','u','l','l'] .null := by
  intro rest _
  rw [List.cons_append, scanValue, if_neg (by decide), if_neg (by decide), if_neg (by decide),
    if_pos rfl]
  exact scanWord_append ['n','u','l','l'] .null rest

theorem scans_bool (b : Bool) (fuel : Nat) : Scans (scanValue (fuel+1)) (Ends inNumeral)
    (if b then ['t','r','u','e'] else ['f','a','l','s','e']) (.bool b) := by
  intro rest _
  cases b with
  | true =>
    rw [if_pos rfl, List.cons_append, scanValue, if_neg (by decide), if_neg (by decide),
      if_neg (by decide), if_neg (by decide), if_pos rfl]
    exact scanWord_append ['t','r','u','e'] (.bool true) rest
  | false =>
    rw [if_neg (by decide), List.cons_append, scanValue, if_neg (by decide), if_neg (by decide),
      if_neg (by decide), if_neg (by decide), if_neg (by decide), if_pos rfl]
    exact scanWord_append ['f','a','l','s','e'] (.bool false) rest

theorem inNumeral_of_blank {c : Char} (h : blank c = true) : inNumeral c = false := by
  simp only [blank, Bool.or_eq_true, beq_iff_eq] at h
  rcases h with ((rfl | rfl) | rfl) | rfl <;> rfl

/-- What is between brackets is read when each part is, and no part begins like the end. -/
theorem scanListed_spaced {α : Type} (stop : Char) {scan : Scanner Char α} {enc : α → List Char}
    {opening gap close : List Char} (hopening : ∀ c ∈ opening, blank c = true)
    (hgap : ∀ c ∈ gap, blank c = true) (hclose : ∀ c ∈ close, blank c = true)
    (hstop : inNumeral stop = false) (hbstop : blank stop = false) (hcomma : ',' ≠ stop) {a : α}
    {l : List α} (h : ∀ b ∈ a::l, Scans scan (Ends inNumeral) (enc b) b)
    (hhead : ∀ b, ∃ c w, enc b = c::w ∧ blank c = false ∧ c ≠ stop) (rest : List Char) :
    scanListed stop scan (opening ++ (enc a ++ spaced ',' stop gap close enc l) ++ rest) =
      some (a::l,rest) := by
  obtain ⟨c,w,hw,hblank,hne⟩ := hhead a
  have hdrop : (opening ++ (enc a ++ spaced ',' stop gap close enc l) ++ rest).dropWhile blank =
      c::(w ++ spaced ',' stop gap close enc l ++ rest) := by
    rw [List.append_assoc, dropWhile_word hopening (by rw [hw]; exact Ends.cons hblank _), hw]
    simp only [List.cons_append]
  have hfuel : l.length < (w ++ spaced ',' stop gap close enc l ++ rest).length + 2 := by
    have hspaced := length_le_spaced ',' stop gap close enc l
    simp only [List.length_append]
    omega
  have hlisted := Scans.listed (fun c => @inNumeral_of_blank c) rfl hstop hcomma
    rfl hbstop hgap hclose h
    (fun b hb rest => by
      obtain ⟨d,w,hw,hblank,-⟩ := hhead b
      rw [hw]
      exact Ends.cons hblank _) hfuel rest trivial
  rw [scanListed, hdrop]
  simp only [if_neg hne]
  rw [← hlisted, hw]
  simp only [List.cons_append]

theorem scans_field (style : Style) {scan : Scanner Char Value} {level : Nat}
    {f : String × Value} (h : Scans scan (Ends inNumeral) (style.write f.2 level) f.2) :
    Scans (scanField scan) (Ends inNumeral) (style.field level f) f := by
  intro rest hrest
  obtain ⟨c,w,hw,hc⟩ := style.write_head f.2 level
  have hvalue : Ends blank (style.write f.2 level ++ rest) := by
    rw [hw]
    exact Ends.cons (starts_write hc).1 _
  have hgap : ∀ c ∈ List.replicate style.keyGap ' ', blank c = true := by
    intro c hc
    rw [List.eq_of_mem_replicate hc]
    rfl
  have hcolon : (':'::(List.replicate style.keyGap ' ' ++ (style.write f.2 level ++ rest))).dropWhile
      blank = ':'::(List.replicate style.keyGap ' ' ++ (style.write f.2 level ++ rest)) := rfl
  have htext : style.field level f ++ rest = quote::(terminated quote style.escape f.1.toList ++
      ':'::(List.replicate style.keyGap ' ' ++ (style.write f.2 level ++ rest))) := by
    simp only [field, key, text, List.cons_append, List.append_assoc]
  rw [htext, scanField, if_pos rfl, scanString_text]
  simp only [hcolon, if_true, dropWhile_word hgap hvalue, h rest hrest, Option.map_some]

theorem decimal_of_mem {items : List Value} (h : Value.DecimalItems items) {v : Value}
    (hv : v ∈ items) : v.Decimal := by
  induction items with
  | nil => cases hv
  | cons w items ih =>
    rcases List.mem_cons.mp hv with rfl | hv
    · exact h.1
    · exact ih h.2 hv

theorem decimal_of_mem_fields {fields : List (String × Value)} (h : Value.DecimalFields fields)
    {f : String × Value} (hf : f ∈ fields) : f.2.Decimal := by
  induction fields with
  | nil => cases hf
  | cons g fields ih =>
    rcases List.mem_cons.mp hf with rfl | hf
    · exact h.1
    · exact ih h.2 hf

theorem distinct_of_mem {items : List Value} (h : Value.DistinctItems items) {v : Value}
    (hv : v ∈ items) : v.DistinctKeys := by
  induction items with
  | nil => cases hv
  | cons w items ih =>
    rcases List.mem_cons.mp hv with rfl | hv
    · exact h.1
    · exact ih h.2 hv

theorem length_le_spaced_of_mem {α : Type} (sep stop : Char) (gap close : List Char)
    (enc : α → List Char) {l : List α} {a : α} (h : a ∈ l) :
    (enc a).length ≤ (spaced sep stop gap close enc l).length := by
  induction l with
  | nil => cases h
  | cons b l ih =>
    simp only [spaced, List.length_cons, List.length_append]
    rcases List.mem_cons.mp h with rfl | h
    · omega
    · have hle := ih h
      omega

theorem objectOf_distinct {pairs : List (String × Value)} (h : (pairs.map Prod.fst).Nodup) :
    objectOf pairs = .dict pairs := by
  have hset := Dict.foldl_set_eq_append Prod.fst Prod.snd pairs [] (by simpa [Dict.keys] using h)
  rw [objectOf, Dict.update]
  simpa using hset

/-- By induction on the fuel, which is one less for the parts. -/
theorem scans_write (style : Style) {v : Value} (hdecimal : v.Decimal)
    (hdistinct : v.DistinctKeys) {level fuel : Nat}
    (hfuel : (style.write v level).length < fuel) :
    Scans (scanValue fuel) (Ends inNumeral) (style.write v level) v := by
  induction fuel generalizing v level with
  | zero => cases hfuel
  | succ fuel ih =>
    cases v with
    | null =>
      rw [write]
      exact scans_null fuel
    | bool b =>
      rw [write]
      exact scans_bool b fuel
    | int n =>
      rw [write]
      exact scans_number (Value.intText_ne_nil n) (fun c hc => Value.inNumber_intText hc)
        (scans_int n) fuel
    | float q =>
      rw [write]
      exact scans_number (Value.floatText_ne_nil q)
        (fun c hc => Value.FloatText.inNumber_floatRepr q hc) (scans_float hdecimal) fuel
    | str s =>
      intro rest _
      rw [write, text, List.cons_append, scanValue, if_pos rfl, scanString_text, Option.map_some]
    | list items =>
      intro rest hrest
      cases items with
      | nil => rfl
      | cons w ws =>
        rw [write, writeItems_eq_spaced] at hfuel ⊢
        have hitems : ∀ b ∈ w::ws, Scans (scanValue fuel) (Ends inNumeral)
            (style.write b (level+1)) b := by
          intro b hb
          apply ih (decimal_of_mem hdecimal hb) (distinct_of_mem hdistinct hb)
          rcases List.mem_cons.mp hb with rfl | hb
          · simp only [List.length_cons, List.length_append] at hfuel
            omega
          · have hle := length_le_spaced_of_mem ',' ']' (style.gap (level+1)) (style.newline level)
              (fun v => style.write v (level+1)) hb
            simp only [List.length_cons, List.length_append] at hfuel
            omega
        have hread := scanListed_spaced ']' (style.blank_newline (level+1))
          (style.blank_gap (level+1)) (style.blank_newline level) rfl rfl (by decide) hitems
          (fun b => by
            obtain ⟨c,cs,hcs,hc⟩ := style.write_head b (level+1)
            exact ⟨c,cs,hcs,starts_write hc⟩) rest
        rw [List.append_assoc] at hread
        rw [List.cons_append, List.append_assoc, scanValue, if_neg (by decide),
          if_neg (by decide), if_pos rfl, hread, Option.map_some]
    | dict fields =>
      intro rest hrest
      cases fields with
      | nil => rfl
      | cons f fs =>
        obtain ⟨k,w⟩ := f
        have hword : style.write (.dict ((k,w)::fs)) level =
            '\x7b'::(style.newline (level+1) ++ (style.field (level+1) (k,w) ++
              spaced ',' '\x7d' (style.gap (level+1)) (style.newline level)
                (style.field (level+1)) fs)) := by
          rw [write, writeFields_eq_spaced, field, List.append_assoc]
        rw [hword] at hfuel ⊢
        have hfields : ∀ f ∈ (k,w)::fs, Scans (scanField (scanValue fuel)) (Ends inNumeral)
            (style.field (level+1) f) f := by
          intro f hf
          apply scans_field
          apply ih (decimal_of_mem_fields hdecimal hf) (Value.distinctKeys_of_mem hdistinct.2 hf)
          have hle : (style.write f.2 (level+1)).length ≤ (style.field (level+1) f).length := by
            rw [field, List.length_append]
            omega
          rcases List.mem_cons.mp hf with rfl | hf
          · simp only [List.length_cons, List.length_append] at hfuel
            omega
          · have hlist := length_le_spaced_of_mem ',' '\x7d' (style.gap (level+1))
              (style.newline level) (style.field (level+1)) hf
            simp only [List.length_cons, List.length_append] at hfuel
            omega
        have hread := scanListed_spaced '\x7d' (style.blank_newline (level+1))
          (style.blank_gap (level+1)) (style.blank_newline level) rfl rfl (by decide) hfields
          (fun f => ⟨quote,_,rfl,rfl,by decide⟩) rest
        rw [List.append_assoc] at hread
        rw [List.cons_append, List.append_assoc, scanValue, if_neg (by decide), if_pos rfl, hread,
          Option.map_some, objectOf_distinct hdistinct.1]

/-- What `json.dumps` writes in any style, `json.loads` reads as the value that was written. -/
theorem loads_dumps (style : Style) {v : Value} (hdecimal : v.Decimal)
    (hdistinct : v.DistinctKeys) : loads (style.dumps v) = some v := by
  obtain ⟨c,cs,hcs,hc⟩ := style.write_head v 0
  have hdrop : (style.write v 0).dropWhile blank = style.write v 0 := by
    rw [hcs]
    exact List.dropWhile_cons_of_neg (by simp [(starts_write hc).1])
  have hread := style.scans_write hdecimal hdistinct (Nat.lt_succ_self (style.write v 0).length) []
    (by intro c rest h; cases h)
  rw [List.append_nil] at hread
  rw [loads, dumps, String.toList_ofList, hdrop]
  simp only [hread]
  rfl

/-- Any document that was read may be written in any style and read again. -/
theorem loads_rewritten {text : String} {v : Value} (h : loads text = some v)
    (hdecimal : v.Decimal) (style : Style) : loads (style.dumps v) = some v :=
  style.loads_dumps hdecimal (loads_distinctKeys h)

theorem loads_rewritten_list : loads (dumps ⟨true,some 2,1,1⟩ (.list [.bool true,.list [],.str "é"])) =
    some (.list [.bool true,.list [],.str "é"]) := by
  have h : loads " [true,[ ] ,\"\\u00e9\"]" = some (.list [.bool true,.list [],.str "é"]) := by
    decide +kernel
  exact loads_rewritten h ⟨trivial,⟨trivial,trivial,trivial⟩⟩ ⟨true,some 2,1,1⟩

/-! ## The texts with `ensure_ascii=False` on one line -/

def plain : Style := { ensureAscii := false }

theorem text_plain (s : String) : plain.text s = (jsonString s).toList := by
  have hescape : plain.escape = jsonEscape := funext fun c => rfl
  rw [text, hescape, jsonString, String.toList_ofList, terminated, quote]

theorem key_plain (k : String) : plain.key k = (jsonString k).toList ++ [':',' '] := by
  rw [key, text_plain]
  rfl

mutual
theorem write_plain : ∀ (v : Value) (level : Nat), plain.write v level = v.jsonChars
  | .null, _ => by rw [write, Value.jsonChars]
  | .bool _, _ => by rw [write, Value.jsonChars]
  | .int _, _ => by rw [write, Value.jsonChars]
  | .float _, _ => by rw [write, Value.jsonChars]
  | .str s, _ => by rw [write, Value.jsonChars, text_plain]
  | .list [], _ => by rw [write, Value.jsonChars]
  | .list (v::vs), level => by
    rw [write, Value.jsonChars, write_plain v, writeItems_plain vs]
    rfl
  | .dict [], _ => by rw [write, Value.jsonChars]
  | .dict ((k,v)::kvs), level => by
    rw [write, Value.jsonChars, write_plain v, writeFields_plain kvs, key_plain, List.append_assoc]
    rfl

theorem writeItems_plain : ∀ (vs : List Value) (level : Nat),
    plain.writeItems vs level = Value.jsonItems vs
  | [], _ => by rw [writeItems, Value.jsonItems]; rfl
  | v::vs, level => by
    rw [writeItems, Value.jsonItems, write_plain v, writeItems_plain vs]
    rfl

theorem writeFields_plain : ∀ (kvs : List (String × Value)) (level : Nat),
    plain.writeFields kvs level = Value.jsonFields kvs
  | [], _ => by rw [writeFields, Value.jsonFields]; rfl
  | (k,v)::kvs, level => by
    rw [writeFields, Value.jsonFields, write_plain v, writeFields_plain kvs, key_plain,
      List.append_assoc]
    rfl
end

theorem dumps_plain (v : Value) : plain.dumps v = v.dumps := by
  rw [dumps, write_plain, Value.dumps]

end Style

end NexusEtl.Json
