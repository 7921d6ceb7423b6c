import NexusEtl.PendingLifecycle
import NexusEtl.Timestamps

/-!
# Deleting closed links after their retention

The use case deletes closed links that were last touched before a cutoff. The
table has the stamps of the database and the cutoff is an `isoformat` text, so
within the day of the cutoff the comparison of the texts says nothing.
-/

set_option autoImplicit false

namespace NexusEtl
open NexusEtl.Library Timestamps

/-- The second at which a link was last touched, or created. -/
def PendingLink.SeenAt (l : PendingLink) (i : Instant) : Prop :=
  i.microsecond = 0 ∧ PendingTable.lastSeen l = currentTimestamp i

namespace PendingTable

/-- Every link has a stamp of the database. -/
def Stamped (t : PendingTable) : Prop := ∀ l ∈ t.rows, ∃ i, l.SeenAt i

/-- The statement writes the database's own time. -/
def DatabaseTime (op : PendingOp) : Prop :=
  ∀ s ∈ stampOf op, ∃ i : Instant, i.microsecond = 0 ∧ s = currentTimestamp i

theorem Stamped.step {t : PendingTable} (h : t.Stamped) {op : PendingOp}
    (hop : DatabaseTime op) : (t.step op).Stamped := by
  have hseen {now : String} (hnow : stampOf op = some now) (l : PendingLink)
      (hl : lastSeen l = now) : ∃ i, l.SeenAt i := by
    obtain ⟨i,hmicro,rfl⟩ := hop now hnow
    exact ⟨i,hmicro,hl⟩
  apply step_forall h
  · rintro req now rfl id
    exact hseen rfl _ rfl
  · rintro req now rfl l _
    exact hseen rfl _ rfl
  · intro now hnow l _
    exact hseen hnow _ rfl
  · intro status reason now hnow l _
    exact hseen hnow _ rfl

/-- Every table that statements with the database's time make is stamped. -/
theorem after_stamped {ops : List PendingOp} (h : ∀ op ∈ ops, DatabaseTime op) :
    (after ops).Stamped :=
  run_invariant (G := fun _ op => DatabaseTime op) (fun _ _ ht hop => ht.step hop)
    (fun _ hl => (List.not_mem_nil hl).elim) (allSteps_of_mem h empty)

/-- `_purge_pending`: `before` is the present moved back by a number of days. -/
def purgePending (t : PendingTable) (pendingRetentionDays : Option Int) (hasGateway : Bool)
    (before : Int → Instant) : PendingTable :=
  match pendingRetentionDays with
  | none => t
  | some days =>
    if days ≤ 0 then t
    else if hasGateway then t.purgeStale (isoformat (before days)) [] else t

/-- A closed link whose last touch is not later than the cutoff. -/
def Stale (cutoff : Instant) (l : PendingLink) : Prop :=
  l.status ≠ .pending ∧ ∃ i, l.SeenAt i ∧ i.micros ≤ cutoff.micros

/-- A closed link that was touched on the day of the cutoff and after it. -/
def TouchedAfter (cutoff : Instant) (l : PendingLink) : Prop :=
  l.status ≠ .pending ∧ ∃ i, l.SeenAt i ∧ i.date = cutoff.date ∧ cutoff.micros < i.micros

theorem mem_purgeStale {t : PendingTable} {cutoff : Instant} {l : PendingLink} :
    l ∈ (t.purgeStale (isoformat cutoff) []).rows ↔
      l ∈ t.rows ∧ ¬ (l.status ≠ .pending ∧ lastSeen l ≤ isoformat cutoff) := by
  have hstatus : (([.resolved,.expired,.conflict] : List PendingStatus).contains l.status) =
      decide (l.status ≠ .pending) := by cases l.status <;> decide
  simp only [purgeStale, delete, if_true, List.mem_filter, hstatus, Bool.not_eq_true',
    Bool.and_eq_false_iff, decide_eq_false_iff_not, not_and_or]

theorem pending_kept {t : PendingTable} {cutoff : Instant} {l : PendingLink} (hl : l ∈ t.rows)
    (hopen : l.status = .pending) : l ∈ (t.purgeStale (isoformat cutoff) []).rows :=
  mem_purgeStale.mpr ⟨hl,fun h => h.1 hopen⟩

/-- The comparison of the texts: by the day, and the whole day of the cutoff counts as before. -/
theorem lastSeen_le_iff {cutoff i : Instant} {l : PendingLink} (h : l.SeenAt i) :
    lastSeen l ≤ isoformat cutoff ↔ i.date ≤ cutoff.date := by
  rw [h.2]
  exact currentTimestamp_le_iff

theorem date_le_of_micros_le {a b : Instant} (h : a.micros ≤ b.micros) : a.date ≤ b.date := by
  by_contra hlater
  have hfields : b.fields < a.fields := Instant.fields_lt_iff.mpr (.inl (not_le.mp hlater))
  have hmicros := Instant.micros_lt_iff.mpr hfields
  omega

theorem micros_lt_of_date_lt {a b : Instant} (h : a.date < b.date) : a.micros < b.micros :=
  Instant.micros_lt_iff.mpr (Instant.fields_lt_iff.mpr (.inl h))

theorem purgeStale_exact_iff {t : PendingTable} (h : t.Stamped) (cutoff : Instant) :
    (∀ l, l ∈ (t.purgeStale (isoformat cutoff) []).rows ↔ l ∈ t.rows ∧ ¬ Stale cutoff l) ↔
      ∀ l ∈ t.rows, ¬ TouchedAfter cutoff l := by
  constructor
  · rintro hexact l hl ⟨hclosed,i,hi,hday,hlater⟩
    have hkept : l ∈ (t.purgeStale (isoformat cutoff) []).rows := by
      refine (hexact l).mpr ⟨hl,?_⟩
      rintro ⟨-,j,hj,hle⟩
      have hsame := micros_eq_of_currentTimestamp hi.1 hj.1 (hi.2.symm.trans hj.2)
      omega
    exact (mem_purgeStale.mp hkept).2 ⟨hclosed,(lastSeen_le_iff hi).mpr (le_of_eq hday)⟩
  · intro hnone l
    rw [mem_purgeStale]
    apply and_congr_right
    intro hl
    apply not_congr
    obtain ⟨i,hi⟩ := h l hl
    rw [lastSeen_le_iff hi]
    constructor
    · rintro ⟨hclosed,hday⟩
      refine ⟨hclosed,i,hi,?_⟩
      rcases lt_or_eq_of_le hday with hbefore | hsame
      · exact Nat.le_of_lt (micros_lt_of_date_lt hbefore)
      · by_contra hlater
        exact hnone l hl ⟨hclosed,i,hi,hsame,by omega⟩
    · rintro ⟨hclosed,j,hj,hle⟩
      have hsame := micros_eq_of_currentTimestamp hi.1 hj.1 (hi.2.symm.trans hj.2)
      exact ⟨hclosed,date_le_of_micros_le (by omega)⟩

/-- The purge of a retention period deletes exactly the closed links whose last touch is not later
than the cutoff when no closed link was touched on the day of the cutoff after it, and only then.
Open links always stay. -/
theorem purge_exact_iff {t : PendingTable} (h : t.Stamped) {days : Int} (hdays : 0 < days)
    (before : Int → Instant) :
    ((∀ l, l ∈ (t.purgePending (some days) true before).rows ↔
        l ∈ t.rows ∧ ¬ Stale (before days) l) ↔
      ∀ l ∈ t.rows, ¬ TouchedAfter (before days) l) ∧
    ∀ l ∈ t.rows, l.status = .pending → l ∈ (t.purgePending (some days) true before).rows := by
  have hpurge : t.purgePending (some days) true before =
      t.purgeStale (isoformat (before days)) [] := if_neg (Int.not_le_of_gt hdays)
  rw [hpurge]
  exact ⟨purgeStale_exact_iff h (before days),fun l hl hopen => pending_kept hl hopen⟩

/-- An instant of May 2024 at a full hour. -/
def mayInstant (day hour : Nat) (hday : 1 ≤ day ∧ day ≤ 31) (hhour : hour < 24) : Instant where
  year := 2024
  month := 5
  day := day
  hour := hour
  minute := 0
  second := 0
  microsecond := 0
  year_bounds := by decide
  month_bounds := by decide
  day_bounds := hday
  hour_lt := hhour
  minute_lt := by decide
  second_lt := by decide
  microsecond_lt := by decide

/-- A link that was resolved in the evening of the second of May. -/
def eveningTable : PendingTable where
  rows := [{ pendingId := 1, dataset := "employees", sourceRowId := "line:1", field := "manager"
             lookupKey := "code:E1", status := .resolved, reason := none, attempts := 1
             createdAt := currentTimestamp (mayInstant 1 9 (by decide) (by decide))
             lastAttemptAt := some (currentTimestamp (mayInstant 2 18 (by decide) (by decide)))
             expiresAt := none, payload := none }]
  nextId := 2
  ordered := by decide

theorem eveningTable_stamped : eveningTable.Stamped := by
  intro l hl
  rw [List.mem_singleton.mp hl]
  exact ⟨_,rfl,rfl⟩

/-- A cutoff on the next day: the link goes, as it should. -/
theorem purge_exact_next_day :
    (∀ l, l ∈ (eveningTable.purgePending (some 30) true
        fun _ => mayInstant 3 12 (by decide) (by decide)).rows ↔
      l ∈ eveningTable.rows ∧ ¬ Stale (mayInstant 3 12 (by decide) (by decide)) l) ∧
    ∀ l ∈ eveningTable.rows, l.status = .pending →
      l ∈ (eveningTable.purgePending (some 30) true
        fun _ => mayInstant 3 12 (by decide) (by decide)).rows := by
  have hpurge := @purge_exact_iff eveningTable eveningTable_stamped 30 (by decide)
    fun _ => mayInstant 3 12 (by decide) (by decide)
  refine ⟨hpurge.1.mpr ?_,hpurge.2⟩
  rintro l hl ⟨-,i,hi,-,hlater⟩
  rw [List.mem_singleton.mp hl] at hi
  have hsame : i.micros = (mayInstant 2 18 (by decide) (by decide)).micros :=
    micros_eq_of_currentTimestamp hi.1 rfl hi.2.symm
  have hbefore : (mayInstant 2 18 (by decide) (by decide)).micros <
      (mayInstant 3 12 (by decide) (by decide)).micros := by decide +kernel
  rw [hsame] at hlater
  exact absurd hlater (Nat.not_lt_of_lt hbefore)

/-- A cutoff at noon of the same day: the link goes, though it was touched in the evening. -/
theorem purge_deletes_later_link :
    (eveningTable.purgePending (some 30) true
        fun _ => mayInstant 2 12 (by decide) (by decide)).rows = [] ∧
      (mayInstant 2 12 (by decide) (by decide)).micros <
        (mayInstant 2 18 (by decide) (by decide)).micros := by decide +kernel

end PendingTable
end NexusEtl
