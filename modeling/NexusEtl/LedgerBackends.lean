import NexusEtl.LedgerSurvival
import NexusEtl.Timestamps

/-!
# Two backends of the ledger

The ledger of a component is meant to hold every appended record until a prune finds its
instant before the cutoff. The JSON lines keep the order of the appends and are cut by the
day in UTC. The rows of the database are ordered and cut by the text of the time stamp.
-/

set_option autoImplicit false

namespace NexusEtl
open NexusEtl.Library

/-- A local time and its offset from UTC in seconds, as `datetime.now().astimezone()`. -/
structure OffsetStamp where
  wall : Instant
  offset : Int
  offset_lt : offset.natAbs < 86400
  deriving DecidableEq

namespace OffsetStamp

def offsetChars (offset : Int) : List Char :=
  (if offset < 0 then '-' else '+') ::
    (FixedWidth.numeral 2 (offset.natAbs / 3600) ++ ':' ::
      (FixedWidth.numeral 2 (offset.natAbs / 60 % 60) ++
        if offset.natAbs % 60 = 0 then [] else ':' :: FixedWidth.numeral 2 (offset.natAbs % 60)))

/-- `isoformat` -/
def text (s : OffsetStamp) : String :=
  String.ofList (Timestamps.dateChars s.wall ++ 'T' ::
    (Timestamps.clockChars s.wall ++ (Timestamps.fraction s.wall ++ offsetChars s.offset)))

/-- The instant in microseconds. -/
def utc (s : OffsetStamp) : Int := s.wall.micros - s.offset * 10^6

/-- The number of the day on which the instant falls in UTC. -/
def utcDay (s : OffsetStamp) : Int := s.utc / (86400 * 10^6)

theorem utcDay_of_utc {s : OffsetStamp} (h : s.offset = 0) : s.utcDay = s.wall.ordinal := by
  have hmicros := s.wall.micros_eq
  have hlt := s.wall.timeOfDay_lt
  rw [utcDay, utc, h]
  omega

theorem plain_numeral {w n : Nat} {c : Char} (h : c ∈ FixedWidth.numeral w n) :
    c.toNat ∉ Text.rawLineEnds := by
  induction w generalizing n with
  | zero => cases h
  | succ w ih =>
    rcases List.mem_cons.mp h with rfl | h
    · have hall : ∀ d < 10, (FixedWidth.digitChar d).toNat ∉ Text.rawLineEnds := by decide
      exact hall _ (Nat.mod_lt _ (by decide))
    · exact ih h

/-- A time stamp has no line ends. -/
theorem plain_text (s : OffsetStamp) : Text.Plain s.text := by
  have hmarks : ∀ c ∈ ['-',':','T','.','+'], c.toNat ∉ Text.rawLineEnds := by
    simp only [List.forall_mem_cons, List.not_mem_nil, false_implies, implies_true, and_true]
    decide
  intro c hc
  rw [text, String.toList_ofList] at hc
  by_cases hmark : c ∈ ['-',':','T','.','+']
  · exact hmarks c hmark
  · simp only [List.mem_cons, List.not_mem_nil, or_false, not_or] at hmark
    obtain ⟨hminus,hcolon,htee,hpoint,hplus⟩ := hmark
    simp only [Timestamps.dateChars, Timestamps.clockChars, Timestamps.fraction, offsetChars,
      List.mem_append, List.mem_cons, hminus, hcolon, htee, false_or] at hc
    have hoptional {p : Prop} [Decidable p] {mark : Char} {cs : List Char} (hne : c ≠ mark)
        (h : c ∈ if p then [] else mark::cs) : c ∈ cs := by
      split at h
      · cases h
      · exact (List.mem_cons.mp h).resolve_left hne
    have hnumeral : ∃ w n, c ∈ FixedWidth.numeral w n := by
      rcases hc with (h | h | h) | (h | h | h) | h | h | h | h | h
      · exact ⟨_,_,h⟩
      · exact ⟨_,_,h⟩
      · exact ⟨_,_,h⟩
      · exact ⟨_,_,h⟩
      · exact ⟨_,_,h⟩
      · exact ⟨_,_,h⟩
      · exact ⟨_,_,hoptional hpoint h⟩
      · split at h
        · exact absurd h hminus
        · exact absurd h hplus
      · exact ⟨_,_,h⟩
      · exact ⟨_,_,h⟩
      · exact ⟨_,_,hoptional hcolon h⟩
    obtain ⟨w,n,hmem⟩ := hnumeral
    exact plain_numeral hmem

end OffsetStamp

/-- A record with the time stamps that its texts spell. -/
structure TimedRecord where
  record : RunLedgerRecord
  started : OffsetStamp
  finished : Option OffsetStamp
  started_text : record.startedAt = started.text
  finished_text : record.finishedAt = finished.map OffsetStamp.text

namespace TimedRecord

/-- The finish, or the start where there is none. -/
def stamp (r : TimedRecord) : OffsetStamp := r.finished.getD r.started

theorem effective_eq (r : TimedRecord) : r.record.effective = r.stamp.text := by
  rw [RunLedgerRecord.effective, r.finished_text, r.started_text, stamp]
  cases r.finished <;> rfl

end TimedRecord

/-- A prune at an instant and the instant so many days before. -/
structure PruneCall where
  now : Instant
  retentionDays : Nat
  cutoff : Instant
  cutoff_day : cutoff.ordinal + retentionDays = now.ordinal
  cutoff_time : cutoff.timeOfDay = now.timeOfDay

inductive LedgerCall
  | append (record : TimedRecord)
  | prune (call : PruneCall)

namespace RunLedgerRowCounters

def toList (c : RunLedgerRowCounters) : List Int :=
  [c.rowsTotal,c.rowsPassed,c.rowsBlocked,c.rowsSkipped,c.rowsWithWarnings,c.errorsTotal,
    c.warningsTotal]

end RunLedgerRowCounters

namespace SqliteRunLedger

def inInteger (n : Int) : Bool := -2^63 ≤ n ∧ n < 2^63

def overflowError : PyException :=
  ⟨"OverflowError","Python int too large to convert to SQLite INTEGER"⟩

/-- The rows in the order of their ids, after an append. -/
def append (rows : List RunLedgerRecord) (record : RunLedgerRecord) :
    Except PyException (List RunLedgerRecord) :=
  if record.rowCounters.toList.all inInteger then .ok (rows ++ [record]) else .error overflowError

/-- `ORDER BY COALESCE(finished_at, started_at) DESC, id DESC LIMIT 1` -/
def firstDescending : List RunLedgerRecord → Option RunLedgerRecord
  | [] => none
  | row::rows =>
    match firstDescending rows with
    | none => some row
    | some found => if found.effective < row.effective then some row else some found

def latestRecord (component : String) (rows : List RunLedgerRecord) : Option RunLedgerRecord :=
  firstDescending (rows.filter fun row => row.component = component)

def prune (rows : List RunLedgerRecord) (call : PruneCall) : List RunLedgerRecord :=
  rows.filter fun row => ¬ row.effective < Timestamps.isoformat call.cutoff

def call (rows : List RunLedgerRecord) : LedgerCall → Except PyException (List RunLedgerRecord)
  | .append r => append rows r.record
  | .prune c => .ok (prune rows c)

end SqliteRunLedger

namespace JsonlRunLedger
open Text (splitLines)

section
variable (loads : String → JsonOutcome) (stampDay : String → StampDay)

def pruneCutoff (c : PruneCall) : Int := (c.now.ordinal : Int) - c.retentionDays

def call (file : String) : LedgerCall → Except PyException String
  | .append r => .ok (append file r.record)
  | .prune c => prune loads stampDay (pruneCutoff c) file

/-- The records that the lines of the file are read as. -/
def recordsOf (file : String) : List RunLedgerRecord :=
  (splitLines file).filterMap fun line => match loads line with
    | .value document => ((recordFromPayload document).toOption).join
    | _ => none

end

end JsonlRunLedger

/-! ## The ledger as it is meant -/

namespace RunLedger

/-- The records that the ledger should hold. -/
def call (held : List TimedRecord) : LedgerCall → List TimedRecord
  | .append r => held ++ [r]
  | .prune c => held.filter fun r => (c.cutoff.micros : Int) ≤ r.stamp.utc

/-- The record finished last, the later append where several did. -/
def FinishedLast (held : List TimedRecord) (found : Option RunLedgerRecord) : Prop :=
  (found = none ∧ held = []) ∨
    ∃ r ∈ held, found = some r.record ∧ ∀ q ∈ held, q.stamp.utc ≤ r.stamp.utc

/-- When both backends do what is meant: appends come in the order of the instants and of the
texts, and at a prune the days and the texts fall on the same side of the cutoff as the
instants. -/
def Fits (component : String) (held : List TimedRecord) : LedgerCall → Prop
  | .append r => r.record.component = component ∧ r.record.Plain ∧
      r.record.rowCounters.toList.all SqliteRunLedger.inInteger = true ∧
      ∀ q ∈ held, q.stamp.utc ≤ r.stamp.utc ∧ q.stamp.text ≤ r.stamp.text
  | .prune c => ∀ q ∈ held,
      (q.stamp.utcDay < c.cutoff.ordinal ↔ q.stamp.utc < c.cutoff.micros) ∧
      (q.stamp.text < Timestamps.isoformat c.cutoff ↔ q.stamp.utc < c.cutoff.micros)

/-- `json.loads`, `fromisoformat` and `astimezone` read what was written. -/
def ReadsCall (loads : String → JsonOutcome) (stampDay : String → JsonlRunLedger.StampDay) :
    LedgerCall → Prop
  | .append r => JsonlRunLedger.ReadsBack loads r.record ∧
      stampDay r.stamp.text = .day r.stamp.utcDay
  | .prune _ => True

end RunLedger

/-! ## The rows -/

namespace SqliteRunLedger

/-- Rows in the order of their texts end with the row that the query finds. -/
theorem firstDescending_of_sorted {rows : List RunLedgerRecord}
    (h : rows.Pairwise fun a b => a.effective ≤ b.effective) :
    firstDescending rows = rows.getLast? := by
  induction rows with
  | nil => rfl
  | cons row rows ih =>
    rw [List.pairwise_cons] at h
    rw [firstDescending, ih h.2, List.getLast?_cons]
    cases hlast : rows.getLast? with
    | none => rfl
    | some found =>
      have hle := h.1 found (List.mem_of_getLast? hlast)
      dsimp only
      rw [if_neg hle, Option.getD_some]

end SqliteRunLedger

/-! ## The lines -/

namespace JsonlRunLedger
open Text (EndsLine splitLines)

/-- The lines of the file are those of the records, and each is read as written. -/
structure Lines (loads : String → JsonOutcome) (stampDay : String → StampDay)
    (held : List TimedRecord) (file : String) : Prop where
  lines : splitLines file = held.map fun r => r.record.line
  ended : EndsLine file.toList
  reads : ∀ r ∈ held, ReadsBack loads r.record ∧ stampDay r.stamp.text = .day r.stamp.utcDay

section
variable {loads : String → JsonOutcome} {stampDay : String → StampDay}

theorem text_ne_empty (s : OffsetStamp) : s.text ≠ "" := by
  intro h
  have hchars := congrArg String.toList h
  rw [OffsetStamp.text, String.toList_ofList] at hchars
  simp at hchars

theorem effectiveIso_payload (r : TimedRecord) :
    effectiveIso r.record.payload = .str r.stamp.text := by
  have hfinished : Fields.read r.record.payload "finished_at" =
      RunLedgerRecord.optionalText r.record.finishedAt := rfl
  have hstarted : Fields.read r.record.payload "started_at" = .str r.record.startedAt := rfl
  rw [effectiveIso, hfinished, hstarted, r.finished_text, r.started_text, TimedRecord.stamp]
  cases r.finished with
  | none => rfl
  | some finished =>
    rw [Option.map_some, RunLedgerRecord.optionalText, Option.getD_some, if_pos]
    simp [Value.truthy, text_ne_empty]

theorem loads_line {record : RunLedgerRecord} (h : ReadsBack loads record) :
    loads record.line = .value (.dict record.payload) := by
  have hread := h "" (fun c hc => by cases hc)
  rwa [String.empty_append] at hread

theorem isBlank_line (record : RunLedgerRecord) : isBlank record.line = false := by
  have h := isBlank_record "" record
  rwa [String.empty_append] at h

theorem shouldKeep_line {r : TimedRecord} (hloads : ReadsBack loads r.record)
    (hstamp : stampDay r.stamp.text = .day r.stamp.utcDay) (cutoff : Int) :
    shouldKeep loads stampDay cutoff r.record.line = .ok (decide (cutoff ≤ r.stamp.utcDay)) := by
  rw [shouldKeep, loads_line hloads]
  dsimp only
  rw [effectiveIso_payload]
  dsimp only
  rw [hstamp]

theorem Lines.append {held : List TimedRecord} {file : String} (h : Lines loads stampDay held file)
    {r : TimedRecord} (hplain : r.record.Plain)
    (hread : ReadsBack loads r.record ∧ stampDay r.stamp.text = .day r.stamp.utcDay) :
    Lines loads stampDay (held ++ [r]) (append file r.record) := by
  refine ⟨?_,endsLine_append file r.record,?_⟩
  · have hfile : file.toList = file.toList ++ [] := (List.append_nil _).symm
    rw [splitLines_append hplain hfile h.ended Text.oneLine_nil, ← splitLines, h.lines,
      List.map_append, List.map_singleton, String.ofList_nil, String.empty_append]
  · intro q hq
    rcases List.mem_append.mp hq with hq | hq
    · exact h.reads q hq
    · rw [List.mem_singleton.mp hq]
      exact hread

/-- A prune keeps the lines of the days from the cutoff on. -/
theorem Lines.keptLines {held : List TimedRecord} {file : String}
    (h : Lines loads stampDay held file) (cutoff : Int) :
    JsonlRunLedger.keptLines loads stampDay cutoff file =
      .ok ((held.filter fun r => cutoff ≤ r.stamp.utcDay).map fun r => r.record.line) := by
  have hkeep : ∀ r ∈ held, shouldKeep loads stampDay cutoff r.record.line =
      .ok (decide (cutoff ≤ r.stamp.utcDay)) :=
    fun r hr => shouldKeep_line (h.reads r hr).1 (h.reads r hr).2 cutoff
  have hnonblank : (splitLines file).filter (fun line => !isBlank line) =
      held.map fun r => r.record.line := by
    rw [h.lines, List.filter_eq_self]
    intro line hline
    obtain ⟨r,_,rfl⟩ := List.mem_map.mp hline
    rw [isBlank_line]
    rfl
  classical
  rw [JsonlRunLedger.keptLines, hnonblank, filterM_ok_iff]
  refine ⟨fun line => decide (shouldKeep loads stampDay cutoff line = .ok true),?_,?_⟩
  · intro line hline
    obtain ⟨r,hr,rfl⟩ := List.mem_map.mp hline
    simp [hkeep r hr]
  · rw [List.filter_map]
    congr 1
    apply List.filter_congr
    intro r hr
    simp [hkeep r hr]

theorem Lines.prune {held : List TimedRecord} {file : String} (h : Lines loads stampDay held file)
    (cutoff : Int) :
    ∃ pruned, JsonlRunLedger.prune loads stampDay cutoff file = .ok pruned ∧
      Lines loads stampDay (held.filter fun r => cutoff ≤ r.stamp.utcDay) pruned := by
  refine ⟨_,by rw [JsonlRunLedger.prune, h.keptLines cutoff]; rfl,?_,endsLine_linesText _,?_⟩
  · rw [splitLines_linesText]
    intro line hline
    obtain ⟨r,hr,rfl⟩ := List.mem_map.mp hline
    apply @oneLine_of_mem_splitLines file
    rw [h.lines]
    exact List.mem_map_of_mem (List.mem_filter.mp hr).1
  · exact fun r hr => h.reads r (List.mem_filter.mp hr).1

theorem Lines.latestRecord {held : List TimedRecord} {file : String}
    (h : Lines loads stampDay held file) :
    JsonlRunLedger.latestRecord loads file = .ok (held.getLast?.map TimedRecord.record) := by
  rw [JsonlRunLedger.latestRecord, h.lines]
  cases hlast : held.getLast? with
  | none =>
    rw [List.getLast?_eq_none_iff.mp hlast]
    rfl
  | some r =>
    obtain ⟨before,rfl⟩ := List.getLast?_eq_some_iff.mp hlast
    have hread := (h.reads r (List.mem_append_right _ List.mem_cons_self)).1
    rw [List.map_append, List.map_singleton, List.reverse_append, List.reverse_singleton,
      List.singleton_append, latestOf, isBlank_line, if_neg (by decide), loads_line hread]
    dsimp only
    rw [recordFromPayload_payload]
    rfl

theorem Lines.recordsOf {held : List TimedRecord} {file : String}
    (h : Lines loads stampDay held file) :
    JsonlRunLedger.recordsOf loads file = held.map TimedRecord.record := by
  rw [JsonlRunLedger.recordsOf, h.lines, List.filterMap_map, ← List.filterMap_eq_map]
  apply List.filterMap_congr
  intro r hr
  rw [Function.comp_apply, loads_line (h.reads r hr).1]
  dsimp only
  rw [recordFromPayload_payload]
  rfl

end

end JsonlRunLedger

/-! ## Runs of calls -/

namespace RunLedger

/-- The appends came in the order of the instants and of the texts, for one component. -/
structure Ordered (component : String) (held : List TimedRecord) : Prop where
  sorted : held.Pairwise fun q r => q.stamp.utc ≤ r.stamp.utc ∧ q.stamp.text ≤ r.stamp.text
  component : ∀ r ∈ held, r.record.component = component

section
variable {component : String} {loads : String → JsonOutcome}
  {stampDay : String → JsonlRunLedger.StampDay}

theorem call_ordered (held : List TimedRecord) (c : LedgerCall) (h : Ordered component held)
    (hfits : Fits component held c) : Ordered component (call held c) := by
  cases c with
  | append r =>
    obtain ⟨hcomponent,_,_,hlast⟩ := hfits
    refine ⟨?_,?_⟩
    · rw [call, List.pairwise_append]
      refine ⟨h.sorted,List.pairwise_singleton _ _,?_⟩
      intro q hq r' hr'
      rw [List.mem_singleton.mp hr']
      exact hlast q hq
    · intro q hq
      rcases List.mem_append.mp hq with hq | hq
      · exact h.component q hq
      · rw [List.mem_singleton.mp hq]
        exact hcomponent
  | prune c =>
    refine ⟨h.sorted.filter _,?_⟩
    intro q hq
    exact h.component q (List.mem_filter.mp hq).1

theorem latestRecord_sqlite {held : List TimedRecord} (h : Ordered component held) :
    SqliteRunLedger.latestRecord component (held.map TimedRecord.record) =
      held.getLast?.map TimedRecord.record := by
  have hall : (held.map TimedRecord.record).filter (fun row => row.component = component) =
      held.map TimedRecord.record := by
    rw [List.filter_eq_self]
    intro row hrow
    obtain ⟨r,hr,rfl⟩ := List.mem_map.mp hrow
    exact decide_eq_true (h.component r hr)
  rw [SqliteRunLedger.latestRecord, hall, SqliteRunLedger.firstDescending_of_sorted,
    List.getLast?_map]
  rw [List.pairwise_map]
  apply h.sorted.imp
  intro q r hqr
  rw [q.effective_eq, r.effective_eq]
  exact hqr.2

theorem getLast_finishedLast {held : List TimedRecord} (h : Ordered component held) :
    FinishedLast held (held.getLast?.map TimedRecord.record) := by
  cases hlast : held.getLast? with
  | none => exact .inl ⟨rfl,List.getLast?_eq_none_iff.mp hlast⟩
  | some r =>
    obtain ⟨before,rfl⟩ := List.getLast?_eq_some_iff.mp hlast
    refine .inr ⟨r,List.mem_append_right _ List.mem_cons_self,rfl,?_⟩
    intro q hq
    rcases List.mem_append.mp hq with hq | hq
    · exact ((List.pairwise_append.mp h.sorted).2.2 q hq r List.mem_cons_self).1
    · rw [List.mem_singleton.mp hq]

/-- Both backends hold what the ledger should hold. -/
structure Related (component : String) (loads : String → JsonOutcome)
    (stampDay : String → JsonlRunLedger.StampDay) (held : List TimedRecord) (file : String)
    (rows : List RunLedgerRecord) : Prop where
  ordered : Ordered component held
  lines : JsonlRunLedger.Lines loads stampDay held file
  rows : rows = held.map TimedRecord.record

theorem pruneCutoff_eq (c : PruneCall) : JsonlRunLedger.pruneCutoff c = c.cutoff.ordinal := by
  have hday := c.cutoff_day
  rw [JsonlRunLedger.pruneCutoff]
  omega

theorem call_related {held : List TimedRecord} {file : String} {rows : List RunLedgerRecord}
    (h : Related component loads stampDay held file rows) {c : LedgerCall}
    (hfits : Fits component held c) (hread : ReadsCall loads stampDay c) :
    ∃ file' rows', JsonlRunLedger.call loads stampDay file c = .ok file' ∧
      SqliteRunLedger.call rows c = .ok rows' ∧
      Related component loads stampDay (call held c) file' rows' := by
  have hordered := call_ordered held c h.ordered hfits
  cases c with
  | append r =>
    obtain ⟨_,hplain,hinteger,_⟩ := hfits
    refine ⟨_,rows ++ [r.record],rfl,?_,hordered,h.lines.append hplain hread,?_⟩
    · rw [SqliteRunLedger.call, SqliteRunLedger.append, if_pos hinteger]
    · rw [h.rows, call, List.map_append, List.map_singleton]
  | prune c =>
    obtain ⟨pruned,hpruned,hlines⟩ := h.lines.prune (JsonlRunLedger.pruneCutoff c)
    have hdays : held.filter (fun r => JsonlRunLedger.pruneCutoff c ≤ r.stamp.utcDay) =
        call held (.prune c) := by
      apply List.filter_congr
      intro r hr
      have hday := (hfits r hr).1
      rw [pruneCutoff_eq, decide_eq_decide]
      omega
    rw [hdays] at hlines
    refine ⟨pruned,_,hpruned,rfl,hordered,hlines,?_⟩
    rw [SqliteRunLedger.prune, h.rows, List.filter_map, call]
    congr 1
    apply List.filter_congr
    intro r hr
    have htext := (hfits r hr).2
    rw [Function.comp_apply, r.effective_eq, decide_eq_decide, htext]
    omega

theorem run_related {held : List TimedRecord} {file : String} {rows : List RunLedgerRecord}
    {calls : List LedgerCall} (h : Related component loads stampDay held file rows)
    (hread : ∀ c ∈ calls, ReadsCall loads stampDay c)
    (hfits : AllSteps call (Fits component) held calls) :
    ∃ file' rows', calls.foldlM (JsonlRunLedger.call loads stampDay) file = .ok file' ∧
      calls.foldlM SqliteRunLedger.call rows = .ok rows' ∧
      Related component loads stampDay (run call held calls) file' rows' := by
  induction calls generalizing held file rows with
  | nil => exact ⟨file,rows,rfl,rfl,h⟩
  | cons c calls ih =>
    obtain ⟨file',rows',hfile,hrows,hrelated⟩ :=
      call_related h hfits.1 (hread c List.mem_cons_self)
    obtain ⟨file'',rows'',hfile',hrows',hrelated'⟩ :=
      ih hrelated (fun d hd => hread d (List.mem_cons_of_mem _ hd)) hfits.2
    refine ⟨file'',rows'',?_,?_,hrelated'⟩
    · rw [List.foldlM_cons, hfile]
      exact hfile'
    · rw [List.foldlM_cons, hrows]
      exact hrows'

end

/-- Where every call fits, both backends raise nothing, hold what the ledger should hold and
return the record that finished last. -/
theorem backends_agree (component : String) (loads : String → JsonOutcome)
    (stampDay : String → JsonlRunLedger.StampDay) (calls : List LedgerCall)
    (hread : ∀ c ∈ calls, ReadsCall loads stampDay c)
    (hfits : AllSteps call (Fits component) [] calls) :
    ∃ file rows, calls.foldlM (JsonlRunLedger.call loads stampDay) "" = .ok file ∧
      calls.foldlM SqliteRunLedger.call [] = .ok rows ∧
      JsonlRunLedger.recordsOf loads file = (run call [] calls).map TimedRecord.record ∧
      rows = (run call [] calls).map TimedRecord.record ∧
      JsonlRunLedger.latestRecord loads file =
        .ok (SqliteRunLedger.latestRecord component rows) ∧
      FinishedLast (run call [] calls) (SqliteRunLedger.latestRecord component rows) := by
  have hstart : Related component loads stampDay [] "" [] :=
    ⟨⟨List.Pairwise.nil,fun _ h => absurd h List.not_mem_nil⟩,
      ⟨rfl,fun _ h => absurd h (by simp),fun _ h => absurd h List.not_mem_nil⟩,rfl⟩
  obtain ⟨file,rows,hfile,hrows,hrelated⟩ := run_related hstart hread hfits
  have hlatest := latestRecord_sqlite hrelated.ordered
  rw [← hrelated.rows] at hlatest
  refine ⟨file,rows,hfile,hrows,hrelated.lines.recordsOf,hrelated.rows,?_,?_⟩
  · rw [hlatest]
    exact hrelated.lines.latestRecord
  · rw [hlatest]
    exact getLast_finishedLast hrelated.ordered

/-- `json.loads` on the text of one record. -/
def readsOnly (record : RunLedgerRecord) (text : String) : JsonOutcome :=
  if text.toList.dropWhile JsonlRunLedger.jsonBlank = record.line.toList then
    .value (.dict record.payload)
  else .decodeError

theorem readsBack_readsOnly (record : RunLedgerRecord) :
    JsonlRunLedger.ReadsBack (readsOnly record) record := by
  intro blanks hblanks
  obtain ⟨rest,hline⟩ := JsonlRunLedger.line_cons record
  have hbrace : JsonlRunLedger.jsonBlank '\x7b' = false := by decide
  rw [readsOnly, if_pos]
  rw [String.toList_append, List.dropWhile_append_of_pos hblanks, hline,
    List.dropWhile_cons_of_neg (by simp [hbrace])]

theorem year_2026 : 1 ≤ 2026 ∧ 2026 ≤ 9999 := by decide

theorem month_june : 1 ≤ 6 ∧ 6 ≤ 12 := by decide

theorem hour_ten : 10 < 24 := by decide

/-- A time on a day of June 2026. -/
def inJune (day hour : Nat) (hday : 1 ≤ day ∧ day ≤ 30) (hhour : hour < 24) : Instant :=
  ⟨2026,6,day,hour,0,0,0,year_2026,month_june,hday,hhour,Instant.zero_lt_sixty,
    Instant.zero_lt_sixty,Instant.zero_lt_second⟩

def finishedAt (s : OffsetStamp) : TimedRecord :=
  ⟨⟨"r","p","mapping",s.text,some s.text,"OK",{},none,none,none⟩,s,some s,rfl,rfl⟩

def early : TimedRecord := finishedAt ⟨inJune 1 8 (by decide) (by decide),0,by decide⟩

def ahead : TimedRecord := finishedAt ⟨inJune 1 10 (by decide) hour_ten,10800,by decide⟩

theorem ordinal_inJune {day hour : Nat} (hday : 1 ≤ day ∧ day ≤ 30) (hhour : hour < 24) :
    (inJune day hour hday hhour).ordinal =
      Calendar.daysBeforeYear 2026 + Calendar.daysBeforeMonth 2026 6 + day := rfl

/-- Three days before noon of the fourth. -/
def threeDays : PruneCall where
  now := inJune 4 12 (by decide) (by decide)
  retentionDays := 3
  cutoff := inJune 1 12 (by decide) (by decide)
  cutoff_day := by
    rw [ordinal_inJune, ordinal_inJune]
  cutoff_time := rfl

theorem plain_finishedAt (s : OffsetStamp) : (finishedAt s).record.Plain := by
  have hwords : ∀ t ∈ ["r","p","mapping","OK"], Text.Plain t := by decide
  intro t ht
  by_cases hstamp : t = s.text
  · rw [hstamp]
    exact s.plain_text
  · apply hwords
    simpa [finishedAt, RunLedgerRecord.texts, hstamp] using ht

theorem backends_agree_early : ∃ file rows,
    [LedgerCall.append early].foldlM (JsonlRunLedger.call (readsOnly early.record)
      fun _ => .day early.stamp.utcDay) "" = .ok file ∧
    [LedgerCall.append early].foldlM SqliteRunLedger.call [] = .ok rows ∧
    JsonlRunLedger.recordsOf (readsOnly early.record) file =
      (run call [] [.append early]).map TimedRecord.record ∧
    rows = (run call [] [.append early]).map TimedRecord.record ∧
    JsonlRunLedger.latestRecord (readsOnly early.record) file =
      .ok (SqliteRunLedger.latestRecord "mapping" rows) ∧
    FinishedLast (run call [] [.append early]) (SqliteRunLedger.latestRecord "mapping" rows) := by
  apply backends_agree "mapping"
  · intro c hc
    rw [List.mem_singleton.mp hc]
    exact ⟨readsBack_readsOnly _,rfl⟩
  · exact ⟨⟨rfl,plain_finishedAt _,by decide,fun _ h => absurd h List.not_mem_nil⟩,trivial⟩

/-- A record of the cutoff day is past for the rows and not for the lines, and the record with
the greatest text need not have finished last. -/
theorem backends_differ :
    (∃ file, JsonlRunLedger.call (readsOnly early.record) (fun _ => .day early.stamp.utcDay)
        (JsonlRunLedger.append "" early.record) (.prune threeDays) = .ok file ∧
      JsonlRunLedger.recordsOf (readsOnly early.record) file = [early.record]) ∧
    SqliteRunLedger.call [early.record] (.prune threeDays) = .ok [] ∧
    SqliteRunLedger.latestRecord "mapping" [ahead.record,early.record] = some ahead.record ∧
      ahead.stamp.utc < early.stamp.utc := by
  have hutc : early.stamp.text = Timestamps.isoformat (inJune 1 8 (by decide) (by decide)) := rfl
  refine ⟨?_,?_,?_,?_⟩
  · have hstart : JsonlRunLedger.Lines (readsOnly early.record) (fun _ => .day early.stamp.utcDay)
        [] "" := ⟨rfl,fun _ h => absurd h (by simp),fun _ h => absurd h List.not_mem_nil⟩
    have hlines := hstart.append (r := early) (plain_finishedAt _) ⟨readsBack_readsOnly _,rfl⟩
    obtain ⟨file,hfile,hkept⟩ := hlines.prune (JsonlRunLedger.pruneCutoff threeDays)
    have hday : JsonlRunLedger.pruneCutoff threeDays ≤ early.stamp.utcDay := by
      have hcutoff : threeDays.cutoff.ordinal = early.stamp.wall.ordinal := by
        exact (ordinal_inJune (by decide) (by decide)).trans
          (@ordinal_inJune 1 8 (by decide) (by decide)).symm
      rw [pruneCutoff_eq, OffsetStamp.utcDay_of_utc rfl, hcutoff]
    refine ⟨file,hfile,?_⟩
    rw [hkept.recordsOf]
    simp [hday]
  · have htext : early.record.effective < Timestamps.isoformat threeDays.cutoff := by
      have hbefore : (inJune 1 8 (by decide) (by decide)).fields < threeDays.cutoff.fields := by
        decide
      rw [early.effective_eq, hutc, Timestamps.isoformat_lt_iff, Instant.micros_lt_iff]
      exact hbefore
    rw [SqliteRunLedger.call, SqliteRunLedger.prune, List.filter_cons_of_neg (by simp [htext])]
    rfl
  · have hbefore : early.record.effective < ahead.record.effective := by decide
    have hall : [ahead.record,early.record].filter (fun row => row.component = "mapping") =
        [ahead.record,early.record] := rfl
    rw [SqliteRunLedger.latestRecord, hall, SqliteRunLedger.firstDescending,
      SqliteRunLedger.firstDescending, SqliteRunLedger.firstDescending]
    exact if_pos hbefore
  · show ((inJune 1 10 (by decide) (by decide)).micros : Int) - 10800 * 10^6 <
      (inJune 1 8 (by decide) (by decide)).micros - 0 * 10^6
    rw [Instant.micros, Instant.micros, ordinal_inJune, ordinal_inJune]
    simp only [inJune]
    omega

end RunLedger

end NexusEtl
