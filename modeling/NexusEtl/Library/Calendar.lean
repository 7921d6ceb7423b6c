import Mathlib.Data.List.Lex
import Mathlib.Tactic.IntervalCases

/-!
# Calendar instants and fixed-width numerals

Instants of the proleptic Gregorian calendar up to the microsecond. Their order
in time, by the count of microseconds, is the order of their fields one after
the other. Numerals of one width order as their numbers, whatever follows them.
-/

set_option autoImplicit false

namespace NexusEtl.Library

namespace Calendar

def isLeap (year : Nat) : Bool := year % 4 = 0 && (year % 100 != 0 || year % 400 = 0)

def daysInMonth (year : Nat) : Nat → Nat
  | 2 => if isLeap year then 29 else 28
  | 4 | 6 | 9 | 11 => 30
  | _ => 31

def daysBeforeMonth (year : Nat) : Nat → Nat
  | 0 => 0
  | 1 => 0
  | m+1 => daysBeforeMonth year m + daysInMonth year m

def daysOfYear (year : Nat) : Nat := if isLeap year then 366 else 365

def daysBeforeYear : Nat → Nat
  | 0 => 0
  | y+1 => daysBeforeYear y + daysOfYear y

theorem daysBeforeMonth_le {year m : Nat} (h : 1 ≤ m) (h' : m ≤ 12) :
    daysBeforeMonth year m + daysInMonth year m ≤ daysOfYear year := by
  unfold daysOfYear
  cases hleap : isLeap year <;> interval_cases m <;>
    simp [daysBeforeMonth, daysInMonth, hleap]

theorem daysBeforeMonth_lt {year m n : Nat} (h : 1 ≤ m) (h' : m < n) :
    daysBeforeMonth year m + daysInMonth year m ≤ daysBeforeMonth year n := by
  induction n with
  | zero => omega
  | succ n ih =>
    have hn : 1 ≤ n := by omega
    have hstep : daysBeforeMonth year (n+1) = daysBeforeMonth year n + daysInMonth year n := by
      obtain ⟨k,rfl⟩ := Nat.exists_eq_add_of_le' hn
      rfl
    rcases Nat.lt_or_ge m n with hlt | hge
    · have hbefore := ih hlt
      omega
    · have heq : m = n := by omega
      subst heq
      omega

theorem daysBeforeYear_lt {y z : Nat} (h : y < z) :
    daysBeforeYear y + daysOfYear y ≤ daysBeforeYear z := by
  induction z with
  | zero => omega
  | succ z ih =>
    have hstep : daysBeforeYear (z+1) = daysBeforeYear z + daysOfYear z := rfl
    rcases Nat.lt_or_ge y z with hlt | hge
    · have hbefore := ih hlt
      omega
    · have heq : y = z := by omega
      subst heq
      omega

end Calendar

/-- An instant with the fields of its date and of its time of day. -/
structure Instant where
  year : Nat
  month : Nat
  day : Nat
  hour : Nat
  minute : Nat
  second : Nat
  microsecond : Nat
  year_bounds : 1 ≤ year ∧ year ≤ 9999
  month_bounds : 1 ≤ month ∧ month ≤ 12
  day_bounds : 1 ≤ day ∧ day ≤ Calendar.daysInMonth year month
  hour_lt : hour < 24
  minute_lt : minute < 60
  second_lt : second < 60
  microsecond_lt : microsecond < 10^6
  deriving DecidableEq

namespace Instant
open Calendar

theorem zero_lt_sixty : 0 < 60 := by decide

theorem zero_lt_second : 0 < 10^6 := by decide

/-- The number of the day. -/
def ordinal (a : Instant) : Nat := daysBeforeYear a.year + daysBeforeMonth a.year a.month + a.day

def micros (a : Instant) : Nat :=
  (a.ordinal * 86400 + a.hour * 3600 + a.minute * 60 + a.second) * 10^6 + a.microsecond

def date (a : Instant) : List Nat := [a.year,a.month,a.day]

def fields (a : Instant) : List Nat :=
  [a.year,a.month,a.day,a.hour,a.minute,a.second,a.microsecond]

theorem ordinal_lt_of_date {a b : Instant} (h : a.date < b.date) : a.ordinal < b.ordinal := by
  have ha := a.day_bounds
  have hb := b.day_bounds
  have hyear := @daysBeforeMonth_le a.year _ a.month_bounds.1 a.month_bounds.2
  simp only [date, List.cons_lt_cons_iff, List.lt_irrefl, and_false, or_false] at h
  unfold ordinal
  rcases h with h | ⟨hy,h | ⟨hm,h⟩⟩
  · have hbefore := daysBeforeYear_lt h
    omega
  · have hbefore := @daysBeforeMonth_lt a.year _ _ a.month_bounds.1 h
    rw [← hy]
    omega
  · rw [← hy, ← hm]
    omega

theorem ordinal_lt_iff {a b : Instant} : a.ordinal < b.ordinal ↔ a.date < b.date := by
  constructor
  · intro h
    rcases lt_trichotomy a.date b.date with hlt | heq | hgt
    · exact hlt
    · simp only [date, List.cons.injEq, and_true] at heq
      unfold ordinal at h
      obtain ⟨hy,hm,hd⟩ := heq
      rw [hy, hm, hd] at h
      omega
    · have hord := ordinal_lt_of_date hgt
      omega
  · exact ordinal_lt_of_date

/-- The microseconds since the beginning of the day. -/
def timeOfDay (a : Instant) : Nat :=
  (a.hour * 3600 + a.minute * 60 + a.second) * 10^6 + a.microsecond

theorem timeOfDay_lt (a : Instant) : a.timeOfDay < 86400 * 10^6 := by
  have hhour := a.hour_lt
  have hminute := a.minute_lt
  have hsecond := a.second_lt
  have hmicro := a.microsecond_lt
  unfold timeOfDay
  omega

theorem micros_eq (a : Instant) : a.micros = a.ordinal * (86400 * 10^6) + a.timeOfDay := by
  unfold micros timeOfDay
  omega

theorem time_lt_iff {a b : Instant} : a.timeOfDay < b.timeOfDay ↔
    [a.hour,a.minute,a.second,a.microsecond] < [b.hour,b.minute,b.second,b.microsecond] := by
  have hminute := a.minute_lt
  have hminute' := b.minute_lt
  have hsecond := a.second_lt
  have hsecond' := b.second_lt
  have hmicro := a.microsecond_lt
  have hmicro' := b.microsecond_lt
  simp only [List.cons_lt_cons_iff, List.lt_irrefl, and_false, or_false]
  unfold timeOfDay
  omega

theorem fields_lt_iff {a b : Instant} : a.fields < b.fields ↔
    a.date < b.date ∨ a.date = b.date ∧
      [a.hour,a.minute,a.second,a.microsecond] < [b.hour,b.minute,b.second,b.microsecond] := by
  simp only [fields, date, List.cons_lt_cons_iff, List.lt_irrefl, and_false, or_false,
    List.cons.injEq, and_true]
  tauto

/-- Time runs in the order of the fields. -/
theorem micros_lt_iff {a b : Instant} : a.micros < b.micros ↔ a.fields < b.fields := by
  have ha := a.timeOfDay_lt
  have hb := b.timeOfDay_lt
  rw [fields_lt_iff, ← time_lt_iff, micros_eq, micros_eq]
  rcases lt_trichotomy a.date b.date with hlt | heq | hgt
  · have hday := ordinal_lt_iff.mpr hlt
    constructor
    · exact fun _ => .inl hlt
    · intro _
      omega
  · have hday : a.ordinal = b.ordinal := by
      by_contra hne
      rcases Nat.lt_or_gt_of_ne hne with h | h
      · exact absurd (ordinal_lt_iff.mp h) (by rw [heq]; exact lt_irrefl _)
      · exact absurd (ordinal_lt_iff.mp h) (by rw [heq]; exact lt_irrefl _)
    rw [hday, heq]
    simp
  · have hday := ordinal_lt_iff.mpr hgt
    constructor
    · intro h
      omega
    · rintro (h | ⟨h,-⟩)
      · exact absurd h (not_lt_of_gt hgt)
      · exact absurd hgt (by rw [h]; exact lt_irrefl _)

end Instant

namespace FixedWidth

def digitChar (d : Nat) : Char := Char.ofNat (48 + d)

/-- The last digits of a number, as many as the width says. -/
def numeral : Nat → Nat → List Char
  | 0, _ => []
  | w+1, n => digitChar (n / 10^w % 10) :: numeral w (n % 10^w)

theorem digitChar_lt_iff {x y : Nat} (hx : x < 10) (hy : y < 10) :
    digitChar x < digitChar y ↔ x < y := by
  have hall : ∀ x < 10, ∀ y < 10, (digitChar x < digitChar y ↔ x < y) := by decide
  exact hall x hx y hy

theorem digitChar_inj {x y : Nat} (hx : x < 10) (hy : y < 10) :
    digitChar x = digitChar y ↔ x = y := by
  have hall : ∀ x < 10, ∀ y < 10, (digitChar x = digitChar y ↔ x = y) := by decide
  exact hall x hx y hy

/-- Numerals of one width order as their numbers, then by what follows. -/
theorem numeral_append_lt_iff {w a b : Nat} (ha : a < 10^w) (hb : b < 10^w) {r s : List Char} :
    numeral w a ++ r < numeral w b ++ s ↔ a < b ∨ a = b ∧ r < s := by
  induction w generalizing a b with
  | zero =>
    have hzero : a = 0 ∧ b = 0 := by omega
    simp [numeral, hzero]
  | succ w ih =>
    have hpos : 0 < 10^w := Nat.pow_pos (by decide)
    have hdigit {n : Nat} (hn : n < 10^(w+1)) : n / 10^w < 10 := by
      rw [Nat.div_lt_iff_lt_mul hpos, ← Nat.pow_succ']
      exact hn
    have hda := hdigit ha
    have hdb := hdigit hb
    have hsplit_a := Nat.div_add_mod a (10^w)
    have hsplit_b := Nat.div_add_mod b (10^w)
    have hra := Nat.mod_lt a hpos
    have hrb := Nat.mod_lt b hpos
    rw [numeral, numeral, List.cons_append, List.cons_append, List.cons_lt_cons_iff,
      Nat.mod_eq_of_lt hda, Nat.mod_eq_of_lt hdb, digitChar_lt_iff hda hdb, digitChar_inj hda hdb,
      ih hra hrb]
    rcases Nat.lt_trichotomy (a / 10^w) (b / 10^w) with hlt | heq | hgt
    · have hless : a < b := by
        by_contra hge
        exact absurd (Nat.div_le_div_right (Nat.le_of_not_lt hge)) (Nat.not_le_of_lt hlt)
      simp [hlt, hless]
    · rw [heq] at hsplit_a ⊢
      constructor
      · rintro (h | ⟨-,h | ⟨h,hrs⟩⟩)
        · omega
        · exact .inl (by omega)
        · exact .inr ⟨by omega,hrs⟩
      · rintro (h | ⟨h,hrs⟩)
        · exact .inr ⟨rfl,.inl (by omega)⟩
        · exact .inr ⟨rfl,.inr ⟨by omega,hrs⟩⟩
    · have hmore : b < a := by
        by_contra hge
        exact absurd (Nat.div_le_div_right (Nat.le_of_not_lt hge)) (Nat.not_le_of_lt hgt)
      constructor
      · rintro (h | ⟨h,-⟩) <;> omega
      · rintro (h | ⟨h,-⟩) <;> omega

end FixedWidth
end NexusEtl.Library
