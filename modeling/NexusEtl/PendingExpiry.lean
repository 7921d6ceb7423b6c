import NexusEtl.PendingLifecycle
import NexusEtl.Timestamps

/-!
# Sweeping links that have expired

A sweep closes the open links whose expiry is not later than the present and
returns them; the expiry service keeps them until the use case takes them over.
Expiries are stored as texts of UTC instants, so the comparison of texts has to
be the one of instants.
-/

set_option autoImplicit false

namespace NexusEtl
open NexusEtl.Library Timestamps

/-- `_build_expires_at`: `after` is the present shifted by a number of seconds. -/
def buildExpiresAt (pendingTtlSeconds : Int) (after : Int → Instant) : Option String :=
  if pendingTtlSeconds ≤ 0 then none else some (isoformat (after pendingTtlSeconds))

def IsInstant (text : Option String) : Prop := ∀ s ∈ text, ∃ i, s = isoformat i

theorem buildExpiresAt_isInstant (pendingTtlSeconds : Int) (after : Int → Instant) :
    IsInstant (buildExpiresAt pendingTtlSeconds after) := by
  unfold buildExpiresAt
  split
  · rintro s ⟨⟩
  · rintro s ⟨⟩
    exact ⟨_,rfl⟩

/-- An open link whose expiry is not later than an instant. -/
def PendingLink.Matured (now : Instant) (l : PendingLink) : Prop :=
  l.status = .pending ∧ ∃ i, l.expiresAt = some (isoformat i) ∧ i.micros ≤ now.micros

namespace PendingTable

/-- Every expiry in the table is the text of an instant. -/
def InstantExpiries (t : PendingTable) : Prop := ∀ l ∈ t.rows, IsInstant l.expiresAt

theorem InstantExpiries.step {t : PendingTable} (h : t.InstantExpiries) {op : PendingOp}
    (hop : ∀ req now, op = .addPending req now → IsInstant req.expiresAt) :
    (t.step op).InstantExpiries := by
  apply step_forall h
  · intro req now hadd id
    exact hop req now hadd
  · intro req now hadd l hl s hs
    rcases Option.or_eq_some_iff.mp hs with hs | ⟨-,hs⟩
    · exact hop req now hadd s hs
    · exact hl s hs
  · exact fun _ _ _ => id
  · exact fun _ _ _ _ _ => id

/-- Requests carry an expiry that the resolver built, so every table has expiries of this kind. -/
theorem after_instantExpiries {ops : List PendingOp}
    (h : ∀ op ∈ ops, ∀ req now, op = .addPending req now → IsInstant req.expiresAt) :
    (after ops).InstantExpiries :=
  run_invariant (G := fun _ op => ∀ req now, op = .addPending req now → IsInstant req.expiresAt)
    (fun _ _ ht hop => ht.step hop) (fun _ hl => (List.not_mem_nil hl).elim)
    (allSteps_of_mem h empty)

/-- The text comparison of the statement is the comparison of the instants. -/
theorem isExpired_iff {now : Instant} {l : PendingLink} (h : IsInstant l.expiresAt) :
    isExpired (isoformat now) l = true ↔ l.Matured now := by
  unfold isExpired PendingLink.Matured
  cases hexp : l.expiresAt with
  | none => simp
  | some text =>
    obtain ⟨i,rfl⟩ := h text hexp
    simp only [Option.any_some, Bool.and_eq_true, beq_iff_eq, decide_eq_true_eq, isoformat_le_iff,
      Option.some.injEq]
    constructor
    · rintro ⟨hstatus,hle⟩
      exact ⟨hstatus,i,rfl,hle⟩
    · rintro ⟨hstatus,j,hij,hle⟩
      exact ⟨hstatus,isoformat_le_iff.mp (by rw [hij]; exact isoformat_le_iff.mpr hle)⟩

/-- What a sweep does to the table and returns. -/
theorem sweepExpired_spec {t : PendingTable} (h : t.InstantExpiries) (now : Instant)
    (reason : Option String) (stamp : String) :
    ∃ due : PendingLink → Bool, (∀ l ∈ t.rows, due l = true ↔ l.Matured now) ∧
      (t.sweepExpired (isoformat now) reason stamp).2 = t.rows.filter due ∧
      (t.sweepExpired (isoformat now) reason stamp).1.rows =
        t.rows.map fun l => if due l then
          { l with status := .expired, reason := reason, lastAttemptAt := some stamp } else l :=
  ⟨isExpired (isoformat now),fun l hl => isExpired_iff (h l hl),rfl,rfl⟩

theorem closed_of_swept {t : PendingTable} {now stamp : String} {reason : Option String}
    {l m : PendingLink} (hl : l ∈ t.rows.filter (isExpired now))
    (hm : m ∈ (t.sweepExpired now reason stamp).1.rows) (hid : m.pendingId = l.pendingId) :
    m.status ≠ .pending := by
  intro hopen
  obtain ⟨hmem,hexpired⟩ := List.mem_filter.mp hl
  obtain ⟨hkept,hm⟩ := open_of_closing hm hopen PendingStatus.noConfusion
  rw [t.eq_of_pendingId hm hmem hid, hexpired] at hkept
  cases hkept

end PendingTable

/-- The service's settings, its last sweep and the links that it holds for the consumer. -/
structure PendingExpiryService where
  pendingSweepIntervalSeconds : Int
  lastSweepAt : Option Instant
  expired : List PendingLink

namespace PendingExpiryService

/-- The interval has passed since the last sweep. -/
def isDue (service : PendingExpiryService) (now : Instant) : Bool :=
  decide (0 < service.pendingSweepIntervalSeconds) &&
    service.lastSweepAt.all fun last => decide
      (service.pendingSweepIntervalSeconds * 10^6 ≤ (now.micros : Int) - last.micros)

def sweep (service : PendingExpiryService) (t : PendingTable) (now : Instant) (stamp : String) :
    PendingExpiryService × PendingTable :=
  if service.isDue now then
    let swept := t.sweepExpired (isoformat now) (some "expired") stamp
    ({ service with lastSweepAt := some now, expired := service.expired ++ swept.2 },swept.1)
  else (service,t)

def drainExpired (service : PendingExpiryService) : PendingExpiryService × List PendingLink :=
  ({ service with expired := [] },service.expired)

/-- Sweeps and drains, and between them any statement of the repository. -/
inductive Event
  | sweep (now : Instant) (stamp : String)
  | drain
  | statement (op : PendingOp)

/-- The table and the service, and beside them what the sweeps returned so far and what the
consumer was handed. -/
structure Feed where
  table : PendingTable
  service : PendingExpiryService
  returned : List PendingLink
  delivered : List PendingLink

namespace Feed

def start (t : PendingTable) (pendingSweepIntervalSeconds : Int) : Feed :=
  ⟨t,⟨pendingSweepIntervalSeconds,none,[]⟩,[],[]⟩

def step (f : Feed) : Event → Feed
  | .sweep now stamp =>
    let swept := f.service.sweep f.table now stamp
    { f with
      table := swept.2
      service := swept.1
      returned := if f.service.isDue now then
        f.returned ++ (f.table.sweepExpired (isoformat now) (some "expired") stamp).2
        else f.returned }
  | .drain =>
    { f with
      service := f.service.drainExpired.1
      delivered := f.delivered ++ f.service.drainExpired.2 }
  | .statement op => { f with table := f.table.step op }

/-- What the sweeps returned is what was handed over and then what waits to be; each link is
there once, and none of them is open in the table. -/
structure Accounted (f : Feed) : Prop where
  split : f.returned = f.delivered ++ f.service.expired
  nodup : (f.returned.map PendingLink.pendingId).Nodup
  numbered : ∀ l ∈ f.returned, l.pendingId < f.table.nextId
  closed : ∀ l ∈ f.returned, ∀ m ∈ f.table.rows, m.pendingId = l.pendingId → m.status ≠ .pending

theorem start_accounted (t : PendingTable) (interval : Int) : (start t interval).Accounted :=
  ⟨rfl,List.nodup_nil,fun _ h => (List.not_mem_nil h).elim,fun _ h => (List.not_mem_nil h).elim⟩

/-- A statement leaves closed links closed, and new links have new numbers. -/
theorem closed_step {t : PendingTable} {returned : List PendingLink}
    (hnumbered : ∀ l ∈ returned, l.pendingId < t.nextId)
    (hclosed : ∀ l ∈ returned, ∀ m ∈ t.rows, m.pendingId = l.pendingId → m.status ≠ .pending)
    (op : PendingOp) :
    (∀ l ∈ returned, l.pendingId < (t.step op).nextId) ∧
      ∀ l ∈ returned, ∀ m ∈ (t.step op).rows, m.pendingId = l.pendingId →
        m.status ≠ .pending := by
  have hev := t.step_evolves op
  constructor
  · intro l hl
    exact Nat.lt_of_lt_of_le (hnumbered l hl) hev.nextId
  · intro l hl m hm hid hopen
    obtain ⟨k,hk,hks,hkid,_⟩ := hev.open_before hm (hid ▸ hnumbered l hl) hopen
    exact hclosed l hl k hk (hkid.trans hid) hks

theorem Accounted.sweep {f : Feed} (h : f.Accounted) (now : Instant) (stamp : String) :
    (f.step (.sweep now stamp)).Accounted := by
  cases hdue : f.service.isDue now with
  | false =>
    have hsame : f.step (.sweep now stamp) = f := by
      simp [step, PendingExpiryService.sweep, hdue]
    rw [hsame]
    exact h
  | true =>
    obtain ⟨hnumbered,hclosed⟩ := closed_step h.numbered h.closed
      (.sweepExpired (isoformat now) (some "expired") stamp)
    have hfound {l : PendingLink}
        (hl : l ∈ f.table.rows.filter (PendingTable.isExpired (isoformat now))) :
        l ∈ f.table.rows ∧ l.status = .pending := by
      obtain ⟨hmem,hexpired⟩ := List.mem_filter.mp hl
      simp only [PendingTable.isExpired, Bool.and_eq_true, beq_iff_eq] at hexpired
      exact ⟨hmem,hexpired.1⟩
    have hnext : f.step (.sweep now stamp) =
        { table := f.table.step (.sweepExpired (isoformat now) (some "expired") stamp)
          service := { f.service with
            lastSweepAt := some now
            expired := f.service.expired ++
              f.table.rows.filter (PendingTable.isExpired (isoformat now)) }
          returned := f.returned ++ f.table.rows.filter (PendingTable.isExpired (isoformat now))
          delivered := f.delivered } := by
      simp [step, PendingExpiryService.sweep, hdue, PendingTable.step, PendingTable.sweepExpired]
    rw [hnext]
    constructor
    · show f.returned ++ _ = f.delivered ++ (f.service.expired ++ _)
      rw [h.split, List.append_assoc]
    · show ((f.returned ++ _).map PendingLink.pendingId).Nodup
      rw [List.map_append, List.nodup_append]
      refine ⟨h.nodup,f.table.nodup.sublist (List.filter_sublist.map _),?_⟩
      rintro a ha b hb rfl
      obtain ⟨l,hl,hlid⟩ := List.mem_map.mp ha
      obtain ⟨m,hm,hmid⟩ := List.mem_map.mp hb
      obtain ⟨hmem,hopen⟩ := hfound hm
      exact h.closed l hl m hmem (hmid.trans hlid.symm) hopen
    · intro l hl
      rcases List.mem_append.mp hl with hl | hl
      · exact hnumbered l hl
      · exact Nat.lt_of_lt_of_le (f.table.lt_nextId (hfound hl).1) (f.table.step_evolves _).nextId
    · intro l hl m hm hid
      rcases List.mem_append.mp hl with hl | hl
      · exact hclosed l hl m hm hid
      · exact PendingTable.closed_of_swept hl hm hid

theorem Accounted.step {f : Feed} (h : f.Accounted) (e : Event) : (f.step e).Accounted := by
  cases e with
  | sweep now stamp => exact h.sweep now stamp
  | drain =>
    refine ⟨?_,h.nodup,h.numbered,h.closed⟩
    show f.returned = (f.delivered ++ f.service.expired) ++ []
    rw [h.split, List.append_nil]
  | statement op =>
    obtain ⟨hnumbered,hclosed⟩ := closed_step h.numbered h.closed op
    exact ⟨h.split,h.nodup,hnumbered,hclosed⟩

def after (t : PendingTable) (interval : Int) (es : List Event) : Feed :=
  run step (start t interval) es

theorem after_accounted (t : PendingTable) (interval : Int) (es : List Event) :
    (after t interval es).Accounted :=
  run_invariant (G := fun _ _ => True) (fun _ e h _ => h.step e) (start_accounted t interval)
    (allSteps_of_mem (Q := fun _ => True) (fun _ _ => trivial) _)

end Feed

end PendingExpiryService
end NexusEtl
