import NexusEtl.PendingLifecycle
import NexusEtl.PendingReplay

/-!
# How often a link is tried

A link is tried by asking for it: a record that is still open counts the
attempts, and the last one allowed closes it as a conflict. The counter lives
in the record, so it says how often the link was tried as long as no second
record is opened for it. A ledger beside the store writes down all attempts and
the links that were reported as exhausted.
-/

set_option autoImplicit false

namespace NexusEtl
open NexusEtl.Library

/-- The link that a request is about, as `add_pending` looks for it. -/
def PendingRequest.key (req : PendingRequest) : String × String × String × String :=
  (req.dataset,req.sourceRowId,req.field,req.lookupKey)

namespace PendingTable

theorem isOpenFor_key {req : PendingRequest} {l : PendingLink} :
    isOpenFor req l = true ↔ l.key = req.key ∧ l.status = .pending := by
  rw [isOpenFor_iff]
  simp [PendingLink.key, PendingRequest.key, and_assoc]

/-- A table whose links all come from another one has no more open links than it. -/
theorem SinglePending.of_origin {t t' : PendingTable} (h : t.SinglePending)
    (ho : Origin Evolves t t') (hid : t'.nextId = t.nextId) : t'.SinglePending := by
  intro l hl m hm hls hms hkey
  obtain ⟨k,hk,hks,hkid,hkl⟩ := ho.open_before hl (hid ▸ t'.lt_nextId hl) hls
  obtain ⟨j,hj,hjs,hjid,hjm⟩ := ho.open_before hm (hid ▸ t'.lt_nextId hm) hms
  have heq := h k hk j hj hks hjs (hkl.key.symm.trans (hkey.trans hjm.key))
  exact eq_of_pendingId _ hl hm (hkid.symm.trans (heq ▸ hjid))

/-- An open link beside the one that carries a request has another key. -/
theorem SinglePending.other_key {t : PendingTable} (h : t.SinglePending) {req : PendingRequest}
    {l k : PendingLink} (horigin : (∀ j ∈ t.rows, isOpenFor req j = false) ∨
      ∃ j ∈ t.rows, j.pendingId = l.pendingId ∧ isOpenFor req j = true)
    (hk : k ∈ t.rows) (hks : k.status = .pending) (hid : k.pendingId ≠ l.pendingId) :
    k.key ≠ req.key := by
  intro hkey
  have hopen := isOpenFor_key.mpr ⟨hkey,hks⟩
  rcases horigin with hnone | ⟨j,hj,hjid,hjopen⟩
  · rw [hnone k hk] at hopen
    cases hopen
  · obtain ⟨hjkey,hjs⟩ := isOpenFor_key.mp hjopen
    have heq := h k hk j hj hks hjs (hkey.trans hjkey.symm)
    exact hid (heq ▸ hjid)

theorem evolves_closing (t : PendingTable) (p : PendingLink → Bool) {status : PendingStatus}
    (hs : status ≠ .pending) (reason : Option String) (now : String) :
    Origin Evolves t (t.modifyWhere p (closed status reason now) (closed_pendingId _ _ _)) :=
  .modifyWhere Evolves.refl (closed_pendingId _ _ _) fun _ _ _ =>
    ⟨rfl,rfl,Nat.le_refl _,.inr hs⟩

theorem SinglePending.request {t : PendingTable} (h : t.SinglePending) (maxAttempts : Int)
    (req : PendingRequest) (now : String) : (t.request maxAttempts req now).1.SinglePending := by
  have hadded : (t.addPending req now).1.SinglePending := h.step (.addPending req now)
  have htouched := hadded.step (.touchAttempt (t.addPending req now).2 now)
  unfold PendingTable.request
  dsimp only
  split
  · exact htouched.step (.markConflict (t.addPending req now).2
      (some "max attempts reached") now)
  · exact htouched

/-- The counter of the link that `add_pending` returns. -/
theorem addPending_attempts {t : PendingTable} {req : PendingRequest} {now : String}
    {m : PendingLink} (hp : req.payload.isSome) (hm : m ∈ (t.addPending req now).1.rows)
    (hid : m.pendingId = (t.addPending req now).2) :
    (m.attempts = 0 ∧ ∀ l ∈ t.rows, isOpenFor req l = false) ∨
      ∃ l ∈ t.rows, l.pendingId = m.pendingId ∧ isOpenFor req l = true ∧
        m.attempts = l.attempts := by
  unfold addPending at hm hid
  split at hm
  · rename_i l hl
    obtain ⟨hopen,hmem⟩ : isOpenFor req l = true ∧ l ∈ t.rows :=
      ⟨List.find?_some hl,List.mem_of_find?_eq_some hl⟩
    rw [hl] at hid
    simp only [hp, Bool.true_or, if_true] at hm hid
    rcases mem_modifyId.mp hm with ⟨hne,_⟩ | ⟨k,hk,hkid,rfl⟩
    · exact absurd hid hne
    · have hkl := t.eq_of_pendingId hk hmem hkid
      subst hkl
      exact .inr ⟨k,hk,rfl,hopen,rfl⟩
  · rename_i hnone
    rw [hnone] at hid
    dsimp only at hm hid
    rcases List.mem_append.mp hm with hm | hm
    · exact absurd hid (Nat.ne_of_lt (t.lt_nextId hm))
    · rw [List.mem_singleton.mp hm]
      refine .inl ⟨rfl,?_⟩
      intro l hl
      simpa using List.find?_eq_none.mp hnone l hl

theorem find?_pendingId {t : PendingTable} {m : PendingLink} (hm : m ∈ t.rows) :
    t.rows.find? (·.pendingId == m.pendingId) = some m := by
  cases hfind : t.rows.find? (·.pendingId == m.pendingId) with
  | none =>
    have hnone := List.find?_eq_none.mp hfind m hm
    simp at hnone
  | some k =>
    have hid : k.pendingId = m.pendingId := by simpa using List.find?_some hfind
    rw [t.eq_of_pendingId (List.mem_of_find?_eq_some hfind) hm hid]

/-- The link that carries a request, with its counter: a new one, or the one that was open. -/
theorem request_attempts (t : PendingTable) (maxAttempts : Int) (req : PendingRequest)
    (now : String) (hp : req.payload.isSome) :
    ∃ m, Requested req t (t.request maxAttempts req now).1 m ∧
      (m.status = .pending ↔ (t.request maxAttempts req now).2 = false) ∧
      ((t.request maxAttempts req now).2 = true ↔ 0 < maxAttempts ∧ maxAttempts ≤ m.attempts) ∧
      ((m.attempts = 1 ∧ ∀ l ∈ t.rows, isOpenFor req l = false) ∨
        ∃ l ∈ t.rows, l.pendingId = m.pendingId ∧ isOpenFor req l = true ∧
          m.attempts = l.attempts + 1) := by
  obtain ⟨m,hid,hs,hm⟩ := t.addPending_spec req now hp
  have hcounter := addPending_attempts hp hm.mem hid
  have htouch := hm.modifyId (touched now) (touched_pendingId now) rfl rfl rfl rfl rfl
  have hreturned : ((t.addPending req now).1.touchAttempt (t.addPending req now).2 now).2 =
      m.attempts + 1 := by
    have hfind := find?_pendingId htouch.mem
    unfold touchAttempt
    dsimp only
    rw [← hid]
    rw [touched_pendingId] at hfind
    rw [hfind]
    rfl
  have hcount : (m.attempts + 1 = 1 ∧ ∀ l ∈ t.rows, isOpenFor req l = false) ∨
      ∃ l ∈ t.rows, l.pendingId = m.pendingId ∧ isOpenFor req l = true ∧
        m.attempts + 1 = l.attempts + 1 := by
    rcases hcounter with ⟨hzero,hnone⟩ | ⟨l,hl,hlid,hopen,hatt⟩
    · exact .inl ⟨by rw [hzero],hnone⟩
    · exact .inr ⟨l,hl,hlid,hopen,by rw [hatt]⟩
  unfold request
  dsimp only
  rw [hreturned]
  split
  · rename_i hspent
    have hconflict := htouch.modifyId (closed .conflict (some "max attempts reached") now)
      (closed_pendingId _ _ _) rfl rfl rfl rfl rfl
    rw [touched_pendingId] at hconflict
    refine ⟨closed .conflict (some "max attempts reached") now (touched now m),?_,?_,?_,hcount⟩
    · rw [← hid]
      exact hconflict
    · simp [closed]
    · exact iff_of_true rfl hspent
  · rename_i hleft
    refine ⟨touched now m,?_,?_,?_,hcount⟩
    · rw [← hid]
      exact htouch
    · exact iff_of_true hs rfl
    · exact iff_of_false Bool.false_ne_true hleft

end PendingTable

namespace World

/-- A step without requests: its links come from those before it. -/
theorem step_origin (w : World) {e : Event} (he : ∀ r, e ≠ .resolve r) :
    PendingTable.Origin PendingTable.Evolves w.db.pending (w.step e).db.pending ∧
      (w.step e).db.pending.nextId = w.db.pending.nextId := by
  cases e with
  | resolve r => exact absurd rfl (he r)
  | sync c =>
    have hpending : (w.step (.sync c)).db.pending = w.db.pending.modifyWhere
        (c.syncer.closes c.dataset c.resolvedId c.keyValues)
        (PendingTable.closed .resolved none c.now) (PendingTable.closed_pendingId _ _ _) :=
      IdentityIndexSyncer.sync_pending c.syncer w.db c.dataset c.resolvedId c.keyValues c.now
    rw [hpending]
    exact ⟨PendingTable.evolves_closing _ _ (by decide) none c.now,rfl⟩
  | sweep now stamp => exact ⟨PendingTable.evolves_closing _ _ (by decide) _ stamp,rfl⟩
  | purge cutoff => exact ⟨.delete PendingTable.Evolves.refl _ _,rfl⟩

theorem single_step {w : World} (h : w.db.pending.SinglePending) (e : Event) :
    (w.step e).db.pending.SinglePending := by
  cases e with
  | resolve r =>
    have hrequested : (w.requested r).db.pending.SinglePending :=
      requested_invariant (I := fun w => w.db.pending.SinglePending) (Q := fun _ => True)
        (fun _ _ => trivial) (fun _ req hw _ => hw.request _ req _) h
    rw [step_resolve]
    split
    · exact hrequested.of_origin (PendingTable.evolves_closing _ _ (by decide) _ _) rfl
    · exact hrequested
  | sync c => exact h.of_origin (w.step_origin (by simp)).1 (w.step_origin (by simp)).2
  | sweep now stamp => exact h.of_origin (w.step_origin (by simp)).1 (w.step_origin (by simp)).2
  | purge cutoff => exact h.of_origin (w.step_origin (by simp)).1 (w.step_origin (by simp)).2

/-- In every reachable store at most one link waits for one key of one field of one row. -/
theorem after_single (es : List Event) : (after es).db.pending.SinglePending :=
  run_invariant (I := fun w => w.db.pending.SinglePending) (G := fun _ _ => True)
    (fun _ e h _ => single_step h e) (PendingTable.after_single [])
    (allSteps_of_mem (Q := fun _ => True) (fun _ _ => trivial) init)

end World

/-- A world with the attempts made so far and the links reported as exhausted. -/
structure Ledger where
  world : World
  tried : List (String × String × String × String)
  spent : List (String × String × String × String)

namespace Ledger

/-- A sequence of runs begins, after some links were reported as exhausted. -/
def start (w : World) (spent : List (String × String × String × String)) : Ledger := ⟨w,[],spent⟩

/-- One call of `_create_pending_link`. -/
def request (r : RowStep) (s : Ledger) (req : PendingRequest) : Ledger :=
  { world := s.world.request r.row r.core.settings.pendingMaxAttempts r.call.clock.now req
    tried := s.tried ++ [req.key]
    spent := if (s.world.db.pending.request r.core.settings.pendingMaxAttempts req
        r.call.clock.now).2 then s.spent ++ [req.key] else s.spent }

def requested (r : RowStep) (s : Ledger) : Ledger :=
  run (request r) s (s.world.outcome r).requests

def step (s : Ledger) : Event → Ledger
  | .resolve r => { s.requested r with world := s.world.step (.resolve r) }
  | e => { s with world := s.world.step e }

theorem run_request_world (r : RowStep) (s : Ledger) (reqs : List PendingRequest) :
    (run (request r) s reqs).world =
      run (World.request r.row r.core.settings.pendingMaxAttempts r.call.clock.now) s.world reqs := by
  induction reqs generalizing s with
  | nil => rfl
  | cons req reqs ih => exact ih (s.request r req)

theorem requested_world (r : RowStep) (s : Ledger) :
    (s.requested r).world = s.world.requested r := run_request_world r s _

/-- No second record is opened: a link that was tried in the sequence, or was exhausted before
it, is asked for only while its record is open. -/
def Fresh (s : Ledger) (req : PendingRequest) : Prop :=
  req.key ∈ s.tried ∨ req.key ∈ s.spent →
    ∃ l ∈ s.world.db.pending.rows, l.key = req.key ∧ l.status = .pending

instance (s : Ledger) (req : PendingRequest) : Decidable (s.Fresh req) :=
  inferInstanceAs (Decidable (_ → ∃ l ∈ s.world.db.pending.rows, _))

/-- A step under the bound, which opens no second record for a link. -/
def Unreopened (m : Nat) (s : Ledger) : Event → Prop
  | .resolve r => r.core.settings.pendingMaxAttempts = m ∧
      AllSteps (request r) Fresh s (s.world.outcome r).requests
  | _ => True

/-- No link is tried more often than allowed, and no exhausted link is open again. -/
structure Bounded (m : Nat) (s : Ledger) : Prop where
  tried : ∀ k, s.tried.count k ≤ m
  spent : ∀ k ∈ s.spent, ∀ l ∈ s.world.db.pending.rows, l.key = k → l.status ≠ .pending

/-- The counter of an open record has not missed an attempt. -/
structure Counted (m : Nat) (s : Ledger) : Prop where
  bounded : s.Bounded m
  single : s.world.db.pending.SinglePending
  counter : ∀ l ∈ s.world.db.pending.rows, l.status = .pending →
    s.tried.count l.key ≤ l.attempts ∧ s.tried.count l.key < m

theorem Counted.of_origin {m : Nat} {s : Ledger} (h : s.Counted m) {w : World}
    (ho : PendingTable.Origin PendingTable.Evolves s.world.db.pending w.db.pending)
    (hid : w.db.pending.nextId = s.world.db.pending.nextId) :
    Counted m { s with world := w } := by
  have hold : ∀ l ∈ w.db.pending.rows, l.pendingId < s.world.db.pending.nextId :=
    fun _ hl => hid ▸ w.db.pending.lt_nextId hl
  refine ⟨⟨h.bounded.tried,?_⟩,h.single.of_origin ho hid,?_⟩
  · intro k hk l hl hkey hs
    obtain ⟨j,hj,hjs,_,hev⟩ := ho.open_before hl (hold l hl) hs
    exact h.bounded.spent k hk j hj (hev.key.symm.trans hkey) hjs
  · intro l hl hs
    obtain ⟨k,hk,hks,_,hev⟩ := ho.open_before hl (hold l hl) hs
    have hcounter := h.counter k hk hks
    rw [← hev.key] at hcounter
    exact ⟨Nat.le_trans hcounter.1 hev.attempts,hcounter.2⟩

/-- The counter of the link that carries a request has seen this attempt and all before. -/
theorem Counted.attempt {m : Nat} {s : Ledger} (h : s.Counted m) (hpos : 0 < m)
    {req : PendingRequest} (hfresh : s.Fresh req) {l : PendingLink}
    (horigin : (l.attempts = 1 ∧
        ∀ k ∈ s.world.db.pending.rows, PendingTable.isOpenFor req k = false) ∨
      ∃ k ∈ s.world.db.pending.rows, k.pendingId = l.pendingId ∧
        PendingTable.isOpenFor req k = true ∧ l.attempts = k.attempts + 1) :
    s.tried.count req.key < m ∧ s.tried.count req.key + 1 ≤ l.attempts := by
  rcases horigin with ⟨hone,hnone⟩ | ⟨k,hk,_,hopen,hatt⟩
  · have hnew : req.key ∉ s.tried := by
      intro hmem
      obtain ⟨k,hk,hkey,hks⟩ := hfresh (.inl hmem)
      have hclosed := hnone k hk
      rw [PendingTable.isOpenFor_key.mpr ⟨hkey,hks⟩] at hclosed
      cases hclosed
    rw [List.count_eq_zero_of_not_mem hnew, hone]
    exact ⟨hpos,Nat.le_refl _⟩
  · obtain ⟨hkey,hks⟩ := PendingTable.isOpenFor_key.mp hopen
    have hcounter := h.counter k hk hks
    rw [hkey] at hcounter
    exact ⟨hcounter.2,by omega⟩

theorem Counted.request {m : Nat} {s : Ledger} (h : s.Counted m) {r : RowStep}
    (hm : r.core.settings.pendingMaxAttempts = m) {req : PendingRequest} (hpos : 0 < m)
    (hp : req.payload.isSome) (hfresh : s.Fresh req) : (s.request r req).Counted m := by
  obtain ⟨l,hreq,hstatus,hspent,horigin⟩ := s.world.db.pending.request_attempts
    r.core.settings.pendingMaxAttempts req r.call.clock.now hp
  have hlkey : l.key = req.key := by
    simp [PendingLink.key, PendingRequest.key, hreq.dataset, hreq.sourceRowId, hreq.field,
      hreq.lookupKey]
  have hattempt := h.attempt hpos hfresh horigin
  have hother : ∀ k ∈ (s.request r req).world.db.pending.rows, k.pendingId ≠ l.pendingId →
      k.status = .pending → k ∈ s.world.db.pending.rows ∧ k.key ≠ req.key := by
    intro k hk hid hks
    have hold := (hreq.others k hid).mp hk
    refine ⟨hold,h.single.other_key ?_ hold hks hid⟩
    rcases horigin with ⟨_,hnone⟩ | ⟨j,hj,hjid,hjopen,_⟩
    · exact .inl hnone
    · exact .inr ⟨j,hj,hjid,hjopen⟩
  have hcount : ∀ k, (s.tried ++ [req.key]).count k =
      s.tried.count k + if req.key = k then 1 else 0 := by
    intro k
    rw [List.count_append, List.count_singleton]
    simp
  have hexhausted : l.status = .pending → l.attempts < m := by
    intro hs
    have hflag := hstatus.mp hs
    have hnot := mt hspent.mpr (by simp [hflag])
    rw [hm] at hnot
    omega
  refine ⟨⟨?_,?_⟩,h.single.request _ req _,?_⟩
  · intro k
    show (s.tried ++ [req.key]).count k ≤ m
    rw [hcount]
    split
    · rename_i hk
      have hlt := hk ▸ hattempt.1
      omega
    · exact h.bounded.tried k
  · intro k hk j hj hkey hs
    by_cases hid : j.pendingId = l.pendingId
    · rw [PendingTable.eq_of_pendingId _ hj hreq.mem hid] at hkey hs
      have hk' : k ∈ s.spent := by
        simpa [Ledger.request, hstatus.mp hs] using hk
      obtain ⟨i,hi,hikey,his⟩ := hfresh (.inr (hlkey ▸ hkey ▸ hk'))
      exact h.bounded.spent k hk' i hi (hikey.trans (hlkey.symm.trans hkey)) his
    · obtain ⟨hold,hne⟩ := hother j hj hid hs
      have hk' : k ∈ s.spent := by
        simp only [Ledger.request] at hk
        split at hk
        · rcases List.mem_append.mp hk with hk | hk
          · exact hk
          · exact absurd (hkey.trans (List.mem_singleton.mp hk)) hne
        · exact hk
      exact h.bounded.spent k hk' j hold hkey hs
  · intro k hk hs
    show (s.tried ++ [req.key]).count k.key ≤ k.attempts ∧ (s.tried ++ [req.key]).count k.key < m
    rw [hcount]
    by_cases hid : k.pendingId = l.pendingId
    · rw [PendingTable.eq_of_pendingId _ hk hreq.mem hid] at hs ⊢
      have hlt := hexhausted hs
      rw [hlkey, if_pos rfl]
      omega
    · obtain ⟨hold,hne⟩ := hother k hk hid hs
      rw [if_neg (Ne.symm hne)]
      exact h.counter k hold hs

theorem Counted.requested {m : Nat} {s : Ledger} (h : s.Counted m) {r : RowStep} (hpos : 0 < m)
    (hr : s.Unreopened m (.resolve r)) : (s.requested r).Counted m := by
  apply run_invariant (G := fun s req => s.Fresh req ∧ req.payload.isSome) _ h
  · apply hr.2.and
    apply allSteps_of_mem
    exact fun req hreq => (World.requestOf_of_outcome req hreq).isSome
  · intro s req hs hreq
    exact hs.request hr.1 hpos hreq.2 hreq.1

theorem Counted.step {m : Nat} {s : Ledger} (h : s.Counted m) {e : Event} (hpos : 0 < m)
    (he : s.Unreopened m e) : (s.step e).Counted m := by
  cases e with
  | resolve r =>
    have hrequested := h.requested hpos he
    show Counted m { s.requested r with world := s.world.step (.resolve r) }
    rw [World.step_resolve, ← requested_world]
    split
    · exact hrequested.of_origin (PendingTable.evolves_closing _ _ (by decide) _ _) rfl
    · exact hrequested
  | sync c => exact h.of_origin (s.world.step_origin (by simp)).1 (s.world.step_origin (by simp)).2
  | sweep now stamp =>
    exact h.of_origin (s.world.step_origin (by simp)).1 (s.world.step_origin (by simp)).2
  | purge cutoff =>
    exact h.of_origin (s.world.step_origin (by simp)).1 (s.world.step_origin (by simp)).2

/-- From every reachable store, with any links reported as exhausted that are not open, every
sequence of steps that opens no second record for a link keeps the bound. -/
theorem retries_bounded (m : Nat) (hpos : 0 < m) (es : List Event)
    (spent : List (String × String × String × String))
    (hspent : ∀ k ∈ spent, ∀ l ∈ (World.after es).db.pending.rows, l.key = k →
      l.status ≠ .pending)
    (later : List Event)
    (h : AllSteps step (Unreopened m) (start (World.after es) spent) later) :
    (run step (start (World.after es) spent) later).Bounded m := by
  have hstart : (start (World.after es) spent).Counted m :=
    { bounded := ⟨fun _ => Nat.zero_le _,hspent⟩
      single := World.after_single es
      counter := fun _ _ _ => ⟨Nat.zero_le _,hpos⟩ }
  exact (run_invariant (fun _ _ hs he => hs.step hpos he) hstart h).bounded

/-- The rows that a replay of a dataset reads from the store. -/
def loadedRows (w : World) (dataset : String) : List (TransformResult MatchedRow) :=
  match PendingCodec.loadPendingRows (w.db.pending.listPendingRows dataset) with
  | .ok loaded => loaded.rows
  | .error _ => []

/-- A step of a run that reads its row from the store. -/
def Replays (w : World) : Event → Prop
  | .resolve r => ∃ m ∈ loadedRows w r.dataset, m.row = some r.call.matched ∧
      m.metadata = r.call.metadata ∧ m.record = r.call.sourceRecord
  | .sweep _ _ => True
  | .sync _ => False
  | .purge _ => False

instance (w : World) : ∀ e, Decidable (Replays w e)
  | .resolve r => inferInstanceAs (Decidable (∃ m ∈ loadedRows w r.dataset, _))
  | .sweep _ _ => .isTrue trivial
  | .sync _ => .isFalse id
  | .purge _ => .isFalse id

/-- The step is planned with this number of attempts. -/
def Allows (m : Nat) : Event → Prop
  | .resolve r => r.core.settings.pendingMaxAttempts = m
  | _ => True

section Samples

open World

/-- Employees name a manager and a deputy; two attempts are allowed. -/
def twiceCore : ResolveCore :=
  { plainCore [codeLink "manager" "employees",codeLink "deputy" "employees"] with
    settings := ⟨0,2,false⟩ }

def managed (desired : Fields) : RowStep :=
  { employeeWaits with
    core := twiceCore
    call := callOn (newRow 3 "line:3" "E2" (.str "emp-2") desired)
    replayable := newRow_replayable _ _ _ (by decide) (by decide) }

/-- The employee is read with a manager, then with a deputy too. -/
def readTwice : List Event :=
  [.resolve (managed [("manager",.str "E1")]),
    .resolve (managed [("manager",.str "E1"),("deputy",.str "E7")])]

/-- The employee as the store replays it. -/
def replayedEmployee : RowStep :=
  { managed [("manager",.str "E1"),("deputy",.str "E7")] with
    call := { callOn (newRow 3 "line:3" "E2" (.str "emp-2")
      [("manager",.str "E1"),("deputy",.str "E7")]) with sourceRecord := ⟨3,"line:3",[]⟩ } }

theorem retries_bounded_employee :
    (run step (start (after [.resolve (managed [("manager",.str "E1")])]) [])
      [.resolve (managed [("manager",.str "E1")])]).Bounded 2 :=
  retries_bounded 2 (by decide) [.resolve (managed [("manager",.str "E1")])] [] (by simp)
    [.resolve (managed [("manager",.str "E1")])]
    ⟨⟨rfl,by decide +kernel⟩,trivial⟩

/-- The deputy keeps the employee in the store while the attempts for its manager are used
up: three replays try the manager three times and open it again. -/
theorem deputy_restarts_manager :
    ¬ ∀ (m : Nat) (es later : List Event) (spent : List (String × String × String × String)),
      0 < m → (∀ e ∈ es ++ later, Allows m e) →
      (∀ k ∈ spent, ∀ l ∈ (after es).db.pending.rows, l.key = k → l.status ≠ .pending) →
      AllSteps World.step Replays (after es) later →
      (run step (start (after es) spent) later).Bounded m := by
  intro h
  have hbounded := h 2 readTwice
    [.resolve replayedEmployee,.resolve replayedEmployee,.resolve replayedEmployee] []
    (by decide) (by simp [readTwice, Allows, managed, replayedEmployee, twiceCore]) (by simp)
    (by decide +kernel)
  have hcount : (run step (start (after readTwice) []) [.resolve replayedEmployee,
      .resolve replayedEmployee,.resolve replayedEmployee]).tried.count
        ("employees","line:3","manager","code:E1") = 3 := by decide +kernel
  have hle := hbounded.tried ("employees","line:3","manager","code:E1")
  omega

end Samples

end Ledger
end NexusEtl
