import NexusEtl.PendingLinks
import NexusEtl.Library.Runs

/-!
# The life of a pending link

The statements of the repository as a machine over its table: any statement may
come after any other, with any arguments. A link stays itself by its
identifier, which the database never gives twice. The statements by identifier
do not look at the status of the link that they close, those by condition do.
-/

set_option autoImplicit false

namespace NexusEtl
open NexusEtl.Library

def PendingStatus.value : PendingStatus → String
  | .pending => "pending"
  | .resolved => "resolved"
  | .conflict => "conflict"
  | .expired => "expired"

def PendingLink.key (l : PendingLink) : String × String × String × String :=
  (l.dataset,l.sourceRowId,l.field,l.lookupKey)

/-- A call of the repository; every statement reads the clock once. -/
inductive PendingOp
  | addPending (req : PendingRequest) (now : String)
  | touchAttempt (id : Nat) (now : String)
  | markResolved (id : Nat) (now : String)
  | markResolvedForSource (sourceRowId now : String)
  | markConflict (id : Nat) (reason : Option String) (now : String)
  | markExpired (id : Nat) (reason : Option String) (now : String)
  | sweepExpired (now : String) (reason : Option String) (stamp : String)
  | purgeStale (cutoff : String) (statuses : List String)
  deriving DecidableEq, Repr

namespace PendingTable

/-- `purge_stale` with the statuses as texts, whatever they are. -/
def purgeStaleTexts (t : PendingTable) (cutoff : String) (statuses : List String) :
    PendingTable :=
  let effective := if statuses = [] then
    [PendingStatus.resolved.value,PendingStatus.expired.value,PendingStatus.conflict.value]
    else statuses
  t.delete fun l => effective.contains l.status.value && lastSeen l ≤ cutoff

def step (t : PendingTable) : PendingOp → PendingTable
  | .addPending req now => (t.addPending req now).1
  | .touchAttempt id now => (t.touchAttempt id now).1
  | .markResolved id now => t.markResolved id now
  | .markResolvedForSource sourceRowId now => t.markResolvedForSource sourceRowId now
  | .markConflict id reason now => t.markConflict id reason now
  | .markExpired id reason now => t.markExpired id reason now
  | .sweepExpired now reason stamp => (t.sweepExpired now reason stamp).1
  | .purgeStale cutoff statuses => t.purgeStaleTexts cutoff statuses

def after (ops : List PendingOp) : PendingTable := run step empty ops

/-- The time that a statement writes into the links that it changes. -/
def stampOf : PendingOp → Option String
  | .addPending _ now | .touchAttempt _ now | .markResolved _ now | .markResolvedForSource _ now
  | .markConflict _ _ now | .markExpired _ _ now => some now
  | .sweepExpired _ _ stamp => some stamp
  | .purgeStale _ _ => none

/-- At most one link waits for one key of one field of one row. -/
def SinglePending (t : PendingTable) : Prop :=
  ∀ l ∈ t.rows, ∀ m ∈ t.rows, l.status = .pending → m.status = .pending → l.key = m.key → l = m

/-- What a link may become: it stays the same link, is tried more often, and is not opened
again. -/
structure Evolves (l m : PendingLink) : Prop where
  pendingId : m.pendingId = l.pendingId
  key : m.key = l.key
  attempts : l.attempts ≤ m.attempts
  status : m.status = l.status ∨ m.status ≠ .pending

theorem Evolves.refl (l : PendingLink) : Evolves l l := ⟨rfl,rfl,Nat.le_refl _,.inl rfl⟩

theorem Evolves.trans {k l m : PendingLink} (h : Evolves k l) (h' : Evolves l m) :
    Evolves k m where
  pendingId := h'.pendingId.trans h.pendingId
  key := h'.key.trans h.key
  attempts := Nat.le_trans h.attempts h'.attempts
  status := by
    rcases h'.status with hm | hm
    · rw [hm]
      exact h.status
    · exact .inr hm

/-- A link that was closed keeps its status. -/
def Settled (l m : PendingLink) : Prop := l.status ≠ .pending → m.status = l.status

/-- The links of the later table that the earlier one had numbered come from its links. -/
structure Origin (R : PendingLink → PendingLink → Prop) (t t' : PendingTable) : Prop where
  nextId : t.nextId ≤ t'.nextId
  links : ∀ m ∈ t'.rows, m.pendingId < t.nextId → ∃ l ∈ t.rows, l.pendingId = m.pendingId ∧ R l m

theorem Origin.refl {R : PendingLink → PendingLink → Prop} (hR : ∀ l, R l l)
    (t : PendingTable) : Origin R t t :=
  ⟨Nat.le_refl _,fun m hm _ => ⟨m,hm,rfl,hR m⟩⟩

theorem Origin.trans {R : PendingLink → PendingLink → Prop}
    (hR : ∀ k l m, R k l → R l m → R k m) {t t' t'' : PendingTable}
    (h : Origin R t t') (h' : Origin R t' t'') : Origin R t t'' where
  nextId := Nat.le_trans h.nextId h'.nextId
  links m hm hlt := by
    obtain ⟨l,hl,hid,hlm⟩ := h'.links m hm (Nat.lt_of_lt_of_le hlt h.nextId)
    obtain ⟨k,hk,hkid,hkl⟩ := h.links l hl (hid ▸ hlt)
    exact ⟨k,hk,hkid.trans hid,hR k l m hkl hlm⟩

/-- The origin of the links along a run. -/
theorem Origin.run {R : PendingLink → PendingLink → Prop} {G : PendingTable → PendingOp → Prop}
    (hrefl : ∀ l, R l l) (htrans : ∀ k l m, R k l → R l m → R k m)
    (hstep : ∀ t op, G t op → Origin R t (t.step op)) {t : PendingTable} {ops : List PendingOp}
    (h : AllSteps step G t ops) : Origin R t (run step t ops) := by
  induction ops generalizing t with
  | nil => exact .refl hrefl t
  | cons op ops ih => exact (hstep t op h.1).trans htrans (ih h.2)

/-- An update statement whose changes of links are allowed. -/
theorem Origin.modifyWhere {R : PendingLink → PendingLink → Prop} (hR : ∀ l, R l l)
    {t : PendingTable} {p : PendingLink → Bool} {f : PendingLink → PendingLink}
    (hf : ∀ l, (f l).pendingId = l.pendingId) (h : ∀ l ∈ t.rows, p l = true → R l (f l)) :
    Origin R t (t.modifyWhere p f hf) where
  nextId := Nat.le_refl _
  links m hm _ := by
    rcases mem_modifyWhere.mp hm with ⟨_,hm⟩ | ⟨l,hl,hp,rfl⟩
    · exact ⟨m,hm,rfl,hR m⟩
    · exact ⟨l,hl,(hf l).symm,h l hl hp⟩

theorem Origin.modifyId {R : PendingLink → PendingLink → Prop} (hR : ∀ l, R l l)
    {t : PendingTable} {id : Nat} {f : PendingLink → PendingLink}
    (hf : ∀ l, (f l).pendingId = l.pendingId) (h : ∀ l ∈ t.rows, l.pendingId = id → R l (f l)) :
    Origin R t (t.modifyId id f hf) where
  nextId := Nat.le_refl _
  links m hm _ := by
    rcases mem_modifyId.mp hm with ⟨_,hm⟩ | ⟨l,hl,hid,rfl⟩
    · exact ⟨m,hm,rfl,hR m⟩
    · exact ⟨l,hl,(hf l).symm,h l hl hid⟩

theorem Origin.delete {R : PendingLink → PendingLink → Prop} (hR : ∀ l, R l l)
    (t : PendingTable) (p : PendingLink → Bool) : Origin R t (t.delete p) :=
  ⟨Nat.le_refl _,fun m hm _ => ⟨m,(List.mem_filter.mp hm).1,rfl,hR m⟩⟩

/-- The statement closes the link, with this status. -/
def Closes (l : PendingLink) (status : PendingStatus) : PendingOp → Prop
  | .markResolved id _ => l.pendingId = id ∧ status = .resolved
  | .markResolvedForSource sourceRowId _ =>
    isPendingOf sourceRowId l = true ∧ status = .resolved
  | .markConflict id _ _ => l.pendingId = id ∧ status = .conflict
  | .markExpired id _ _ => l.pendingId = id ∧ status = .expired
  | .sweepExpired now _ _ => isExpired now l = true ∧ status = .expired
  | .addPending _ _ | .touchAttempt _ _ | .purgeStale _ _ => False

theorem Closes.ne_pending {l : PendingLink} {status : PendingStatus} {op : PendingOp}
    (h : Closes l status op) : status ≠ .pending := by
  cases op <;> simp [Closes] at h <;> simp [h]

/-- One statement, by what it does to the links: a new attempt, a new payload, or a closing. -/
theorem step_origin {R : PendingLink → PendingLink → Prop} (t : PendingTable) (op : PendingOp)
    (hrefl : ∀ l, R l l)
    (hrefresh : ∀ req now, op = .addPending req now → ∀ l, R l (refresh req now l))
    (htouched : ∀ now, stampOf op = some now → ∀ l, R l (touched now l))
    (hclosed : ∀ l ∈ t.rows, ∀ status reason now, Closes l status op → stampOf op = some now →
      R l (closed status reason now l)) : Origin R t (t.step op) := by
  cases op with
  | addPending req now =>
    simp only [step, addPending]
    split
    · dsimp only
      split
      · exact .modifyId hrefl (refresh_pendingId req now) fun l _ _ => hrefresh req now rfl l
      · exact .refl hrefl t
    · refine ⟨Nat.le_succ _,?_⟩
      intro m hm hlt
      rcases List.mem_append.mp hm with hm | hm
      · exact ⟨m,hm,rfl,hrefl m⟩
      · rw [List.mem_singleton.mp hm] at hlt
        exact absurd hlt (Nat.lt_irrefl _)
  | touchAttempt id now =>
    exact .modifyId hrefl (touched_pendingId now) fun l _ _ => htouched now rfl l
  | markResolved id now =>
    exact .modifyId hrefl (closed_pendingId _ _ _) fun l hl h =>
      hclosed l hl _ _ _ ⟨h,rfl⟩ rfl
  | markResolvedForSource sourceRowId now =>
    exact .modifyWhere hrefl (closed_pendingId _ _ _) fun l hl h =>
      hclosed l hl _ _ _ ⟨h,rfl⟩ rfl
  | markConflict id reason now =>
    exact .modifyId hrefl (closed_pendingId _ _ _) fun l hl h =>
      hclosed l hl _ _ _ ⟨h,rfl⟩ rfl
  | markExpired id reason now =>
    exact .modifyId hrefl (closed_pendingId _ _ _) fun l hl h =>
      hclosed l hl _ _ _ ⟨h,rfl⟩ rfl
  | sweepExpired now reason stamp =>
    exact .modifyWhere hrefl (closed_pendingId _ _ _) fun l hl h =>
      hclosed l hl _ _ _ ⟨h,rfl⟩ rfl
  | purgeStale cutoff statuses => exact .delete hrefl t _

/-- No statement opens a link again or takes an attempt back. -/
theorem step_evolves (t : PendingTable) (op : PendingOp) : Origin Evolves t (t.step op) :=
  t.step_origin op Evolves.refl (fun _ _ _ _ => ⟨rfl,rfl,Nat.le_refl _,.inl rfl⟩)
    (fun _ _ _ => ⟨rfl,rfl,Nat.le_succ _,.inl rfl⟩)
    fun _ _ _ _ _ h _ => ⟨rfl,rfl,Nat.le_refl _,.inr h.ne_pending⟩

/-- An open link with an old number was open before. -/
theorem Origin.open_before {t t' : PendingTable} (ho : Origin Evolves t t') {m : PendingLink}
    (hm : m ∈ t'.rows) (hlt : m.pendingId < t.nextId) (hs : m.status = .pending) :
    ∃ l ∈ t.rows, l.status = .pending ∧ l.pendingId = m.pendingId ∧ Evolves l m := by
  obtain ⟨l,hl,hid,hev⟩ := ho.links m hm hlt
  rcases hev.status with hst | hst
  · exact ⟨l,hl,hst ▸ hs,hid,hev⟩
  · exact absurd hs hst

/-- The statement closes open links only, or does not change the status. -/
def Guarded (t : PendingTable) (op : PendingOp) : Prop :=
  ∀ l ∈ t.rows, ∀ status, Closes l status op → l.status = .pending ∨ l.status = status

theorem step_settled {t : PendingTable} {op : PendingOp} (h : Guarded t op) :
    Origin Settled t (t.step op) :=
  t.step_origin op (fun _ _ => rfl) (fun _ _ _ _ _ => rfl) (fun _ _ _ _ => rfl)
    fun l hl status _ _ hcloses _ hne => by
      rcases h l hl status hcloses with hopen | hsame
      · exact absurd hopen hne
      · exact hsame.symm

theorem changed_mem_modifyId {t : PendingTable} {id : Nat} {f : PendingLink → PendingLink}
    (hf : ∀ l, (f l).pendingId = l.pendingId) {l : PendingLink} (hl : l ∈ t.rows)
    (h : l.pendingId = id) : f l ∈ (t.modifyId id f hf).rows :=
  mem_modifyId.mpr (.inr ⟨l,hl,h,rfl⟩)

theorem changed_mem_modifyWhere {t : PendingTable} {p : PendingLink → Bool}
    {f : PendingLink → PendingLink} (hf : ∀ l, (f l).pendingId = l.pendingId) {l : PendingLink}
    (hl : l ∈ t.rows) (h : p l = true) : f l ∈ (t.modifyWhere p f hf).rows :=
  mem_modifyWhere.mpr (.inr ⟨l,hl,h,rfl⟩)

/-- A link that a statement closes is in the table after it, with the new status. -/
theorem Closes.mem {t : PendingTable} {op : PendingOp} {l : PendingLink}
    {status : PendingStatus} (h : Closes l status op) (hl : l ∈ t.rows) :
    ∃ m ∈ (t.step op).rows, m.pendingId = l.pendingId ∧ m.status = status := by
  cases op with
  | addPending req now => exact h.elim
  | touchAttempt id now => exact h.elim
  | purgeStale cutoff statuses => exact h.elim
  | markResolved id now =>
    exact ⟨_,changed_mem_modifyId (closed_pendingId _ _ _) hl h.1,rfl,h.2.symm⟩
  | markResolvedForSource sourceRowId now =>
    exact ⟨_,changed_mem_modifyWhere (closed_pendingId _ _ _) hl h.1,rfl,h.2.symm⟩
  | markConflict id reason now =>
    exact ⟨_,changed_mem_modifyId (closed_pendingId _ _ _) hl h.1,rfl,h.2.symm⟩
  | markExpired id reason now =>
    exact ⟨_,changed_mem_modifyId (closed_pendingId _ _ _) hl h.1,rfl,h.2.symm⟩
  | sweepExpired now reason stamp =>
    exact ⟨_,changed_mem_modifyWhere (closed_pendingId _ _ _) hl h.1,rfl,h.2.symm⟩

/-- A link with a new number was inserted because none was open for the request. -/
theorem step_fresh {t : PendingTable} {op : PendingOp} {m : PendingLink}
    (hm : m ∈ (t.step op).rows) (hid : ¬ m.pendingId < t.nextId) :
    ∃ req now, op = .addPending req now ∧ (∀ l ∈ t.rows, isOpenFor req l = false) ∧
      m = newLink req now t.nextId := by
  have hold : ∀ l ∈ t.rows, l.pendingId = m.pendingId → False := fun l hl heq =>
    hid (heq ▸ t.lt_nextId hl)
  have hmodify : ∀ f : PendingLink → PendingLink, (∀ l, (f l).pendingId = l.pendingId) →
      m ∈ t.rows.map f → False := by
    intro f hf hm
    obtain ⟨l,hl,rfl⟩ := List.mem_map.mp hm
    exact hold l hl (hf l).symm
  cases op with
  | addPending req now =>
    simp only [step, addPending] at hm
    split at hm
    · dsimp only at hm
      split at hm
      · exact (hmodify _ (fun l => by split <;> rfl) hm).elim
      · exact (hold m hm rfl).elim
    · rename_i hnone
      rcases List.mem_append.mp hm with hm | hm
      · exact (hold m hm rfl).elim
      · refine ⟨req,now,rfl,?_,List.mem_singleton.mp hm⟩
        intro l hl
        simpa using List.find?_eq_none.mp hnone l hl
  | touchAttempt id now => exact (hmodify _ (fun l => by split <;> rfl) hm).elim
  | markResolved id now => exact (hmodify _ (fun l => by split <;> rfl) hm).elim
  | markResolvedForSource sourceRowId now => exact (hmodify _ (fun l => by split <;> rfl) hm).elim
  | markConflict id reason now => exact (hmodify _ (fun l => by split <;> rfl) hm).elim
  | markExpired id reason now => exact (hmodify _ (fun l => by split <;> rfl) hm).elim
  | sweepExpired now reason stamp => exact (hmodify _ (fun l => by split <;> rfl) hm).elim
  | purgeStale cutoff statuses => exact (hold m (List.mem_filter.mp hm).1 rfl).elim

/-- A property of links that new links have and that the changes of one statement keep. -/
theorem step_forall {P : PendingLink → Prop} {t : PendingTable} {op : PendingOp}
    (h : ∀ l ∈ t.rows, P l)
    (hnew : ∀ req now, op = .addPending req now → ∀ id, P (newLink req now id))
    (hrefresh : ∀ req now, op = .addPending req now → ∀ l, P l → P (refresh req now l))
    (htouched : ∀ now, stampOf op = some now → ∀ l, P l → P (touched now l))
    (hclosed : ∀ status reason now, stampOf op = some now → ∀ l, P l →
      P (closed status reason now l)) : ∀ m ∈ (t.step op).rows, P m := by
  have horigin : Origin (fun l m => P l → P m) t (t.step op) :=
    t.step_origin op (fun _ => id) hrefresh htouched
      fun l _ status reason now _ hstamp => hclosed status reason now hstamp l
  intro m hm
  by_cases hid : m.pendingId < t.nextId
  · obtain ⟨l,hl,_,hkept⟩ := horigin.links m hm hid
    exact hkept (h l hl)
  · obtain ⟨req,now,hop,_,rfl⟩ := step_fresh hm hid
    exact hnew req now hop _

theorem SinglePending.step {t : PendingTable} (h : t.SinglePending) (op : PendingOp) :
    (t.step op).SinglePending := by
  have horigin := t.step_evolves op
  have hnew : ∀ l ∈ (t.step op).rows, ∀ m ∈ (t.step op).rows, l.status = .pending →
      l.key = m.key → l.pendingId < t.nextId → ¬ m.pendingId < t.nextId → False := by
    intro l hl m hm hs hkey hlt hge
    obtain ⟨k,hk,hks,_,hev⟩ := horigin.open_before hl hlt hs
    obtain ⟨req,now,_,hnone,rfl⟩ := step_fresh hm hge
    have hk' := hnone k hk
    have hreq : k.key = (req.dataset,req.sourceRowId,req.field,req.lookupKey) :=
      hev.key.symm.trans hkey
    simp only [PendingLink.key, Prod.mk.injEq] at hreq
    rw [isOpenFor_iff.mpr ⟨hreq.1,hreq.2.1,hreq.2.2.1,hreq.2.2.2,hks⟩] at hk'
    cases hk'
  intro l hl m hm hls hms hkey
  by_cases hlt : l.pendingId < t.nextId
  · by_cases hmt : m.pendingId < t.nextId
    · obtain ⟨k,hk,hks,hkid,hkl⟩ := horigin.open_before hl hlt hls
      obtain ⟨j,hj,hjs,hjid,hjm⟩ := horigin.open_before hm hmt hms
      have heq := h k hk j hj hks hjs (hkl.key.symm.trans (hkey.trans hjm.key))
      exact eq_of_pendingId _ hl hm (hkid.symm.trans (heq ▸ hjid))
    · exact (hnew l hl m hm hls hkey hlt hmt).elim
  · by_cases hmt : m.pendingId < t.nextId
    · exact (hnew m hm l hl hms hkey.symm hmt hlt).elim
    · obtain ⟨req,now,hop,_,rfl⟩ := step_fresh hl hlt
      obtain ⟨req',now',hop',_,rfl⟩ := step_fresh hm hmt
      rw [hop] at hop'
      cases hop'
      rfl

/-- Over a part of a run: one open link a key, attempts only grow, and a link that was closed
keeps its status. -/
def Lifecycle (ops : List PendingOp) : Prop :=
  ∀ before part rest, ops = before ++ (part ++ rest) →
    (after (before ++ part)).SinglePending ∧
    ∀ l ∈ (after before).rows, ∀ m ∈ (after (before ++ part)).rows, m.pendingId = l.pendingId →
      l.attempts ≤ m.attempts ∧ (l.status ≠ .pending → m.status = l.status)

theorem after_single (ops : List PendingOp) : (after ops).SinglePending :=
  run_invariant (G := fun _ _ => True) (fun _ op h _ => h.step op) (by simp [SinglePending, empty])
    (allSteps_of_mem (Q := fun _ => True) (fun _ _ => trivial) empty)

/-- Whatever is called, attempts only grow and no closed link is opened again. -/
theorem run_evolves (t : PendingTable) (ops : List PendingOp) :
    Origin Evolves t (run step t ops) :=
  .run (G := fun _ _ => True) Evolves.refl (fun _ _ _ => Evolves.trans)
    (fun t op _ => t.step_evolves op) (allSteps_of_mem (Q := fun _ => True) (fun _ _ => trivial) t)

theorem run_settled {t : PendingTable} {ops : List PendingOp}
    (h : AllSteps step Guarded t ops) : Origin Settled t (run step t ops) := by
  apply Origin.run (fun _ _ => rfl) _ (fun _ _ => step_settled) h
  intro k l m hkl hlm hne
  have hl := hkl hne
  exact (hlm (hl ▸ hne)).trans hl

/-- The link of an origin is the link of the table with that number. -/
theorem Origin.of_mem {R : PendingLink → PendingLink → Prop} {t t' : PendingTable}
    (h : Origin R t t') {l m : PendingLink} (hl : l ∈ t.rows) (hm : m ∈ t'.rows)
    (hid : m.pendingId = l.pendingId) : R l m := by
  obtain ⟨k,hk,hkid,hkm⟩ := h.links m hm (hid ▸ t.lt_nextId hl)
  rw [t.eq_of_pendingId hl hk (hid.symm.trans hkid.symm)]
  exact hkm

theorem lifecycle_of_guarded {ops : List PendingOp} (h : AllSteps step Guarded empty ops) :
    Lifecycle ops := by
  rintro before part rest rfl
  have hpart := ((allSteps_append _ _ _).mp ((allSteps_append _ _ _).mp h).2).1
  have hrun : after (before ++ part) = run step (after before) part := run_append _ _ _
  refine ⟨after_single _,?_⟩
  intro l hl m hm hid
  rw [hrun] at hm
  exact ⟨((run_evolves _ part).of_mem hl hm hid).attempts,(run_settled hpart).of_mem hl hm hid⟩

theorem guarded_of_lifecycle (before : List PendingOp) {ops : List PendingOp}
    (h : Lifecycle (before ++ ops)) :
    AllSteps step Guarded (after before) ops := by
  induction ops generalizing before with
  | nil => trivial
  | cons op ops ih =>
    have hstep : after (before ++ [op]) = (after before).step op := run_append _ _ _
    constructor
    · intro l hl status hcloses
      obtain ⟨m,hm,hid,hms⟩ := hcloses.mem hl
      rw [← hstep] at hm
      have hkept := ((h before [op] ops rfl).2 l hl m hm hid).2
      by_cases hopen : l.status = .pending
      · exact .inl hopen
      · exact .inr ((hkept hopen).symm.trans hms)
    · rw [← hstep]
      apply ih
      rw [List.append_assoc]
      exact h

/-- The store is the state machine that it is meant to be in exactly the runs in which every
closing by an identifier meets an open link, or one that has the status already. -/
theorem lifecycle_iff (ops : List PendingOp) :
    Lifecycle ops ↔ AllSteps step Guarded empty ops :=
  ⟨fun h => guarded_of_lifecycle [] h,lifecycle_of_guarded⟩

/-- The link of an employee that waits for its manager. -/
def waitsForManager : PendingRequest :=
  { dataset := "employees", sourceRowId := "line:3", field := "manager", lookupKey := "code:E1"
    expiresAt := none, payload := none }

/-- A link that was resolved is marked as a conflict. -/
theorem resolved_becomes_conflict : ¬ ∀ ops : List PendingOp, Lifecycle ops := by
  intro h
  have hkept := (h [.addPending waitsForManager "2024-05-01 12:00:00",
    .markResolved 1 "2024-05-01 12:05:00",
    .markConflict 1 (some "max attempts reached") "2024-05-01 12:06:00"]
    [.addPending waitsForManager "2024-05-01 12:00:00",.markResolved 1 "2024-05-01 12:05:00"]
    [.markConflict 1 (some "max attempts reached") "2024-05-01 12:06:00"] [] rfl).2
  have hlinks := hkept
    (closed .resolved none "2024-05-01 12:05:00"
      (newLink waitsForManager "2024-05-01 12:00:00" 1)) (by decide)
    (closed .conflict (some "max attempts reached") "2024-05-01 12:06:00"
      (newLink waitsForManager "2024-05-01 12:00:00" 1)) (by decide) rfl
  exact absurd (hlinks.2 (by decide)) (by decide)

end PendingTable
end NexusEtl
