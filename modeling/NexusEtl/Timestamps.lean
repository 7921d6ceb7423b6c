import NexusEtl.Library.Calendar

/-!
# Time stamps as texts

The resolver writes instants with `isoformat`, in UTC and with a fraction only
when there are microseconds; the database writes the current second with a
blank between the date and the time. Columns of both kinds are compared as texts.
-/

set_option autoImplicit false

namespace NexusEtl.Timestamps
open NexusEtl.Library NexusEtl.Library.FixedWidth

def dateChars (a : Instant) : List Char :=
  numeral 4 a.year ++ '-' :: (numeral 2 a.month ++ '-' :: numeral 2 a.day)

def clockChars (a : Instant) : List Char :=
  numeral 2 a.hour ++ ':' :: (numeral 2 a.minute ++ ':' :: numeral 2 a.second)

def fraction (a : Instant) : List Char :=
  if a.microsecond = 0 then [] else '.' :: numeral 6 a.microsecond

/-- `isoformat` of an instant in UTC. -/
def isoformat (a : Instant) : String :=
  String.ofList (dateChars a ++ 'T' :: (clockChars a ++ (fraction a ++ ['+','0','0',':','0','0'])))

/-- `CURRENT_TIMESTAMP` at an instant. -/
def currentTimestamp (a : Instant) : String :=
  String.ofList (dateChars a ++ ' ' :: clockChars a)

theorem separated_lt_iff (c : Char) {r s : List Char} : c :: r < c :: s ↔ r < s := by
  simp

theorem dateChars_append_lt_iff {a b : Instant} {r s : List Char} :
    dateChars a ++ r < dateChars b ++ s ↔ a.date < b.date ∨ a.date = b.date ∧ r < s := by
  have hyear := a.year_bounds
  have hyear' := b.year_bounds
  have hmonth := a.month_bounds
  have hmonth' := b.month_bounds
  have hday (i : Instant) : i.day < 10^2 := by
    have hle := i.day_bounds.2
    have hdays : Calendar.daysInMonth i.year i.month ≤ 31 := by
      unfold Calendar.daysInMonth
      split
      · split <;> omega
      all_goals omega
    omega
  simp only [dateChars, List.append_assoc, List.cons_append]
  rw [numeral_append_lt_iff (by omega) (by omega), separated_lt_iff,
    numeral_append_lt_iff (by omega) (by omega), separated_lt_iff,
    numeral_append_lt_iff (hday a) (hday b)]
  simp only [Instant.date, List.cons_lt_cons_iff, List.lt_irrefl, and_false, or_false,
    List.cons.injEq, and_true]
  tauto

theorem clockChars_append_lt_iff {a b : Instant} {r s : List Char} :
    clockChars a ++ r < clockChars b ++ s ↔
      [a.hour,a.minute,a.second] < [b.hour,b.minute,b.second] ∨
        [a.hour,a.minute,a.second] = [b.hour,b.minute,b.second] ∧ r < s := by
  have hhour := a.hour_lt
  have hhour' := b.hour_lt
  have hminute := a.minute_lt
  have hminute' := b.minute_lt
  have hsecond := a.second_lt
  have hsecond' := b.second_lt
  simp only [clockChars, List.append_assoc, List.cons_append]
  rw [numeral_append_lt_iff (by omega) (by omega), separated_lt_iff,
    numeral_append_lt_iff (by omega) (by omega), separated_lt_iff,
    numeral_append_lt_iff (by omega) (by omega)]
  simp only [List.cons_lt_cons_iff, List.lt_irrefl, and_false, or_false, List.cons.injEq, and_true]
  tauto

/-- The text without a fraction comes first, since the plus sign stands before the point. -/
theorem fraction_append_lt_iff {a b : Instant} (r : List Char) :
    fraction a ++ '+' :: r < fraction b ++ '+' :: r ↔ a.microsecond < b.microsecond := by
  have hplus : '+' < '.' := by decide
  have hpoint : ¬ '.' < '+' := by decide
  have hne : '+' ≠ '.' := by decide
  unfold fraction
  by_cases ha : a.microsecond = 0
  · by_cases hb : b.microsecond = 0
    · simp [ha, hb, List.lt_irrefl]
    · have hpos : 0 < b.microsecond := Nat.pos_of_ne_zero hb
      rw [if_pos ha, if_neg hb, ha]
      simp [List.cons_lt_cons_iff, hplus, hpos]
  · by_cases hb : b.microsecond = 0
    · rw [if_neg ha, if_pos hb, hb]
      simp [List.cons_lt_cons_iff, hpoint, hne.symm]
    · rw [if_neg ha, if_neg hb, List.cons_append, List.cons_append, separated_lt_iff,
        numeral_append_lt_iff a.microsecond_lt b.microsecond_lt]
      simp [List.lt_irrefl]

theorem ofList_lt_iff (r s : List Char) : String.ofList r < String.ofList s ↔ r < s := by
  show (String.ofList r).toList < (String.ofList s).toList ↔ r < s
  rw [String.toList_ofList, String.toList_ofList]

/-- Texts of both shapes stand in the order of time. -/
theorem isoformat_lt_iff {a b : Instant} : isoformat a < isoformat b ↔ a.micros < b.micros := by
  rw [isoformat, isoformat, ofList_lt_iff, dateChars_append_lt_iff, separated_lt_iff,
    clockChars_append_lt_iff, fraction_append_lt_iff, Instant.micros_lt_iff,
    Instant.fields_lt_iff]
  simp only [List.cons_lt_cons_iff, List.lt_irrefl, and_false, or_false, List.cons.injEq, and_true]
  tauto

theorem isoformat_le_iff {a b : Instant} : isoformat a ≤ isoformat b ↔ a.micros ≤ b.micros := by
  show ¬ isoformat b < isoformat a ↔ _
  rw [isoformat_lt_iff]
  omega

/-- A stamp of the database stands before every text of its own day. -/
theorem currentTimestamp_le_iff {a b : Instant} :
    currentTimestamp a ≤ isoformat b ↔ a.date ≤ b.date := by
  have hblank : ¬ 'T' < ' ' := by decide
  have hne : 'T' ≠ ' ' := by decide
  show ¬ isoformat b < currentTimestamp a ↔ _
  rw [currentTimestamp, isoformat, ofList_lt_iff, dateChars_append_lt_iff]
  simp only [List.cons_lt_cons_iff, hblank, hne, false_and, or_self, and_false, or_false]
  exact not_lt

theorem currentTimestamp_lt_iff {a b : Instant} (ha : a.microsecond = 0)
    (hb : b.microsecond = 0) : currentTimestamp a < currentTimestamp b ↔ a.micros < b.micros := by
  have hclock := clockChars_append_lt_iff (a := a) (b := b) (r := []) (s := [])
  rw [List.append_nil, List.append_nil] at hclock
  rw [currentTimestamp, currentTimestamp, ofList_lt_iff, dateChars_append_lt_iff,
    separated_lt_iff, hclock, Instant.micros_lt_iff, Instant.fields_lt_iff]
  simp only [List.cons_lt_cons_iff, List.lt_irrefl, and_false, or_false, ha, hb, lt_irrefl]

/-- A stamp of the database determines its second. -/
theorem micros_eq_of_currentTimestamp {a b : Instant} (ha : a.microsecond = 0)
    (hb : b.microsecond = 0) (h : currentTimestamp a = currentTimestamp b) :
    a.micros = b.micros := by
  have hab := currentTimestamp_lt_iff ha hb
  have hba := currentTimestamp_lt_iff hb ha
  rw [h] at hab hba
  have hirrefl := String.lt_irrefl (currentTimestamp b)
  have hnot := mt hab.mpr hirrefl
  have hnot' := mt hba.mpr hirrefl
  omega

end NexusEtl.Timestamps
