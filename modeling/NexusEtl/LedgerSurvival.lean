import NexusEtl.Canonicalization
import NexusEtl.LedgerLines
import NexusEtl.Library.Fallible

/-!
# What a ledger file keeps

A record on a line of its own is the latest one until the next append, and a prune within
its retention keeps the line. A prune reads the file and replaces it later: a record that
is written in between, or through a handle on the file that was replaced, is lost.
-/

set_option autoImplicit false

namespace NexusEtl.JsonlRunLedger
open NexusEtl.Library
open Text (OneLine EndsLine lineChars splitLines)

/-! ## Reading the file -/

def unicodeDecodeError : PyException :=
  ⟨"UnicodeDecodeError","'utf-8' codec can't decode the bytes of the file"⟩

/-- `read_text(encoding="utf-8")` -/
def readText (bytes : List UInt8) : Except PyException String :=
  match Text.decodeUtf8 bytes with
  | some file => .ok file
  | none => .error unicodeDecodeError

section
variable (loads : String → JsonOutcome) (stampDay : String → StampDay)

def latestRecordOf (bytes : List UInt8) : Except PyException (Option RunLedgerRecord) :=
  readText bytes >>= latestRecord loads

def pruneOf (cutoff : Int) (bytes : List UInt8) : Except PyException String :=
  readText bytes >>= prune loads stampDay cutoff

/-- The reader goes on to the line before. -/
def passedOver (line : String) : Bool :=
  isBlank line || match loads line with
    | .decodeError => true
    | .value (.dict _) => false
    | .value _ => true
    | .raises _ => false

def counterNames : List String :=
  ["rows_total","rows_passed","rows_blocked","rows_skipped","rows_with_warnings","errors_total",
    "warnings_total"]

/-- `int` takes every counter of the document. -/
def Countable (payload : Fields) : Prop :=
  ∀ name ∈ counterNames, ∃ n, counter (rowCounters payload) name = .ok n

/-- The line is an object with readable counters. -/
def ReadsRecord (line : String) : Prop :=
  ∃ payload, loads line = .value (.dict payload) ∧ Countable payload

/-- The retention can judge the line: no JSON, or an object whose time stamp raises nothing. -/
def Prunable (line : String) : Prop :=
  loads line = .decodeError ∨ ∃ payload, loads line = .value (.dict payload) ∧
    ∀ text, effectiveIso payload = .str text → ∀ exc, stampDay text ≠ .raises exc

/-- `json.loads` reads what was written, also behind blanks. -/
def ReadsBack (record : RunLedgerRecord) : Prop :=
  ∀ blanks, Blanks blanks → loads (blanks ++ record.line) = .value (.dict record.payload)

/-- A line of the file is read as the record. -/
def Holds (file : String) (record : RunLedgerRecord) : Prop :=
  ∃ line ∈ splitLines file, isBlank line = false ∧ loads line = .value (.dict record.payload)

/-- The record's time stamp falls on no day before the cutoff. -/
def InRetention (cutoff : Int) (record : RunLedgerRecord) : Prop :=
  ∀ text, effectiveIso record.payload = .str text → ∀ day, stampDay text = .day day → cutoff ≤ day

end

section
variable {loads : String → JsonOutcome} {stampDay : String → StampDay}

theorem readText_bind_ok_iff {α : Type} {f : String → Except PyException α} (bytes : List UInt8) :
    (∃ a, (readText bytes >>= f) = .ok a) ↔
      ∃ file, Text.decodeUtf8 bytes = some file ∧ ∃ a, f file = .ok a := by
  rw [readText]
  cases Text.decodeUtf8 bytes with
  | none => exact iff_of_false (fun ⟨_,h⟩ => by cases h) (fun ⟨_,h,_⟩ => by cases h)
  | some file =>
    constructor
    · rintro ⟨a,h⟩
      exact ⟨file,rfl,a,h⟩
    · rintro ⟨_,hfile,h⟩
      obtain rfl := Option.some.inj hfile
      exact h

theorem countersFromPayload_ok_iff (counters : Fields) :
    (∃ c, countersFromPayload counters = .ok c) ↔
      ∀ name ∈ counterNames, ∃ n, counter counters name = .ok n := by
  constructor
  · rintro ⟨c,h⟩
    simp only [countersFromPayload, bind_ok_iff] at h
    obtain ⟨n₁,h₁,n₂,h₂,n₃,h₃,n₄,h₄,n₅,h₅,n₆,h₆,n₇,h₇,_⟩ := h
    simp only [counterNames, List.forall_mem_cons, List.not_mem_nil, false_implies, implies_true,
      and_true]
    exact ⟨⟨n₁,h₁⟩,⟨n₂,h₂⟩,⟨n₃,h₃⟩,⟨n₄,h₄⟩,⟨n₅,h₅⟩,⟨n₆,h₆⟩,⟨n₇,h₇⟩⟩
  · intro h
    simp only [counterNames, List.forall_mem_cons, List.not_mem_nil, false_implies, implies_true,
      and_true] at h
    obtain ⟨⟨n₁,h₁⟩,⟨n₂,h₂⟩,⟨n₃,h₃⟩,⟨n₄,h₄⟩,⟨n₅,h₅⟩,⟨n₆,h₆⟩,⟨n₇,h₇⟩⟩ := h
    refine ⟨⟨n₁,n₂,n₃,n₄,n₅,n₆,n₇⟩,?_⟩
    rw [countersFromPayload, h₁, h₂, h₃, h₄, h₅, h₆, h₇]
    rfl

theorem recordFromPayload_ok_iff (payload : Fields) :
    (∃ found, recordFromPayload (.dict payload) = .ok found) ↔ Countable payload := by
  rw [Countable, ← countersFromPayload_ok_iff]
  constructor
  · rintro ⟨found,h⟩
    rw [recordFromPayload, bind_ok_iff] at h
    obtain ⟨c,hc,_⟩ := h
    exact ⟨c,hc⟩
  · rintro ⟨c,hc⟩
    rw [recordFromPayload, hc]
    exact ⟨_,rfl⟩

/-- What is read off an object is a record. -/
theorem recordFromPayload_dict {payload : Fields} {found : Option RunLedgerRecord}
    (h : recordFromPayload (.dict payload) = .ok found) : ∃ record, found = some record := by
  rw [recordFromPayload, bind_ok_iff] at h
  obtain ⟨c,_,hfound⟩ := h
  exact ⟨_,(Except.ok.inj hfound).symm⟩

/-- The first line that is not passed over decides. -/
theorem latestOf_cons (line : String) (lines : List String) :
    latestOf loads (line::lines) =
      if passedOver loads line then latestOf loads lines
      else match loads line with
        | .value document => recordFromPayload document
        | .raises exc => .error exc
        | .decodeError => .ok none := by
  rw [latestOf, passedOver]
  cases hblank : isBlank line with
  | true => rfl
  | false =>
    cases hloads : loads line with
    | decodeError => rfl
    | raises exc => rfl
    | value document =>
      cases document with
      | dict payload =>
        cases hrecord : recordFromPayload (.dict payload) with
        | error exc => simp [hrecord]
        | ok found =>
          obtain ⟨record,rfl⟩ := recordFromPayload_dict hrecord
          simp [hrecord]
      | _ => rfl

theorem readsRecord_iff {line : String} (h : passedOver loads line = false) :
    (∃ found, (match loads line with
        | .value document => recordFromPayload document
        | .raises exc => .error exc
        | .decodeError => .ok none) = .ok found) ↔ ReadsRecord loads line := by
  rw [passedOver, Bool.or_eq_false_iff] at h
  unfold ReadsRecord
  cases hloads : loads line with
  | decodeError => simp [hloads] at h
  | raises exc => simp
  | value document =>
    cases document with
    | dict payload => simp [recordFromPayload_ok_iff]
    | _ => simp [hloads] at h

theorem latestOf_ok_iff (lines : List String) :
    (∃ found, latestOf loads lines = .ok found) ↔
      ∀ line, lines.find? (fun l => !passedOver loads l) = some line → ReadsRecord loads line := by
  induction lines with
  | nil => exact iff_of_true ⟨none,rfl⟩ (fun _ h => by cases h)
  | cons line lines ih =>
    rw [latestOf_cons]
    cases hpassed : passedOver loads line with
    | true =>
      rw [if_pos rfl, ih, List.find?_cons_of_neg (by simp [hpassed])]
    | false =>
      rw [if_neg (by decide), readsRecord_iff hpassed, List.find?_cons_of_pos (by simp [hpassed])]
      simp

theorem shouldKeep_ok_iff (cutoff : Int) (line : String) :
    (∃ keep, shouldKeep loads stampDay cutoff line = .ok keep) ↔ Prunable loads stampDay line := by
  unfold shouldKeep Prunable
  cases hloads : loads line with
  | decodeError => simp
  | raises exc => simp
  | value document =>
    cases document with
    | dict payload =>
      dsimp only
      cases heffective : effectiveIso payload with
      | str text =>
        dsimp only
        cases hstamp : stampDay text <;> simp [heffective, hstamp]
      | _ => simp [heffective]
    | _ => simp

theorem keptLines_ok_iff (cutoff : Int) (file : String) :
    (∃ kept, keptLines loads stampDay cutoff file = .ok kept) ↔
      ∀ line ∈ splitLines file, isBlank line = false → Prunable loads stampDay line := by
  constructor
  · rintro ⟨kept,h⟩ line hline hblank
    obtain ⟨p,hp,_⟩ := filterM_ok_iff.mp h
    exact (shouldKeep_ok_iff cutoff line).mp
      ⟨p line,hp line (List.mem_filter.mpr ⟨hline,by simp [hblank]⟩)⟩
  · intro h
    have hall : ∀ line ∈ (splitLines file).filter fun line => !isBlank line,
        ∃ keep, shouldKeep loads stampDay cutoff line = .ok keep := by
      intro line hline
      rw [List.mem_filter] at hline
      exact (shouldKeep_ok_iff cutoff line).mpr (h line hline.1 (by simpa using hline.2))
    classical
    refine ⟨_,filterM_ok_iff.mpr ⟨fun line =>
      decide (shouldKeep loads stampDay cutoff line = .ok true),?_,rfl⟩⟩
    intro line hline
    obtain ⟨keep,hkeep⟩ := hall line hline
    cases keep <;> simp [hkeep]

theorem prune_ok_iff (cutoff : Int) (file : String) :
    (∃ pruned, prune loads stampDay cutoff file = .ok pruned) ↔
      ∀ line ∈ splitLines file, isBlank line = false → Prunable loads stampDay line := by
  rw [← keptLines_ok_iff cutoff file, prune]
  constructor
  · rintro ⟨pruned,h⟩
    cases hkept : keptLines loads stampDay cutoff file with
    | error exc =>
      rw [hkept] at h
      cases h
    | ok kept => exact ⟨kept,rfl⟩
  · rintro ⟨kept,hkept⟩
    rw [hkept]
    exact ⟨linesText kept,rfl⟩

/-! ## One append -/

theorem isBlank_record (start : String) (record : RunLedgerRecord) :
    isBlank (start ++ record.line) = false := by
  obtain ⟨rest,hline⟩ := line_cons record
  have hspace : Text.isSpace '\x7b' = false := by decide
  rw [isBlank, decide_eq_false_iff_not, Text.strip_eq_stripBy, Text.stripBy_eq_empty_iff]
  intro hall
  have hbrace := hall '\x7b' (by rw [String.toList_append, hline]; simp)
  rw [hspace] at hbrace
  cases hbrace

/-- A plain record that is written behind an ended line is the latest one. -/
theorem latestRecord_append {file : String} {record : RunLedgerRecord} (hplain : record.Plain)
    (hfile : LastLineBlank file) (hread : ReadsBack loads record) :
    latestRecord loads (append file record) = .ok (some record) := by
  obtain ⟨whole,blanks,hchars,hwhole,hblanks⟩ := hfile
  have hline : loads (String.ofList blanks ++ record.line) = .value (.dict record.payload) := by
    apply hread
    intro c hc
    rw [String.toList_ofList] at hc
    exact hblanks c hc
  rw [latestRecord, splitLines_append hplain hchars hwhole
    fun c hc => isLineEnd_of_jsonBlank (hblanks c hc), List.reverse_append,
    List.reverse_singleton, List.singleton_append, latestOf, isBlank_record]
  rw [if_neg (by decide), hline]
  dsimp only
  rw [recordFromPayload_payload]

theorem holds_append_self {file : String} {record : RunLedgerRecord} (hplain : record.Plain)
    (hfile : LastLineBlank file) (hread : ReadsBack loads record) :
    Holds loads (append file record) record := by
  obtain ⟨whole,blanks,hchars,hwhole,hblanks⟩ := hfile
  refine ⟨String.ofList blanks ++ record.line,?_,isBlank_record _ _,?_⟩
  · rw [splitLines_append hplain hchars hwhole fun c hc => isLineEnd_of_jsonBlank (hblanks c hc)]
    exact List.mem_append_right _ List.mem_cons_self
  · apply hread
    intro c hc
    rw [String.toList_ofList] at hc
    exact hblanks c hc

theorem isBlank_of_blanks {blanks : List Char} (h : ∀ c ∈ blanks, jsonBlank c = true) :
    isBlank (String.ofList blanks) = true := by
  rw [isBlank, decide_eq_true_eq, Text.strip_eq_stripBy, Text.stripBy_eq_empty_iff]
  intro c hc
  rw [String.toList_ofList] at hc
  have hblank := h c hc
  simp only [jsonBlank, Bool.or_eq_true, beq_iff_eq] at hblank
  rcases hblank with rfl | rfl <;> decide

/-- What the file held it still holds after an append. -/
theorem holds_append {file : String} {record other : RunLedgerRecord} (hplain : record.Plain)
    (hfile : LastLineBlank file) (h : Holds loads file other) :
    Holds loads (append file record) other := by
  obtain ⟨whole,blanks,hchars,hwhole,hblanks⟩ := hfile
  have hone : OneLine blanks := fun c hc => isLineEnd_of_jsonBlank (hblanks c hc)
  obtain ⟨line,hmem,hblank,hread⟩ := h
  refine ⟨line,?_,hblank,hread⟩
  rw [splitLines_append hplain hchars hwhole hone]
  rw [splitLines, hchars, lineChars_open hwhole hone, List.map_append, List.mem_append] at hmem
  rcases hmem with hmem | hmem
  · exact List.mem_append_left _ hmem
  · -- the line left open is blank
    split at hmem
    · cases hmem
    · rw [List.map_singleton, List.mem_singleton] at hmem
      rw [hmem, isBlank_of_blanks hblanks] at hblank
      cases hblank

theorem lastLineBlank_of_endsLine {file : String} (h : EndsLine file.toList) :
    LastLineBlank file :=
  ⟨file.toList,[],(List.append_nil _).symm,h,fun _ hc => absurd hc List.not_mem_nil⟩

theorem endsLine_append (file : String) (record : RunLedgerRecord) :
    EndsLine (append file record).toList := by
  intro c hc
  rw [toList_append, ← List.append_assoc, List.getLast?_concat] at hc
  obtain rfl := Option.some.inj hc
  decide

/-! ## One prune -/

theorem linesText_cons (line : String) (lines : List String) :
    (linesText (line::lines)).toList = line.toList ++ '\n' :: (linesText lines).toList := by
  cases lines with
  | nil =>
    rw [linesText, linesText, Text.join, Text.join, String.intercalate_singleton,
      String.intercalate_nil]
    simp
  | cons next lines =>
    rw [linesText, linesText, Text.join, Text.join, String.intercalate_cons_cons]
    simp

theorem splitLines_linesText {lines : List String} (h : ∀ line ∈ lines, OneLine line.toList) :
    splitLines (linesText lines) = lines := by
  induction lines with
  | nil => rfl
  | cons line lines ih =>
    rw [splitLines, linesText_cons, Text.lineChars_line (h line List.mem_cons_self), List.map_cons,
      String.ofList_toList]
    congr 1
    exact ih fun other hother => h other (List.mem_cons_of_mem _ hother)

theorem endsLine_linesText (lines : List String) : EndsLine (linesText lines).toList := by
  intro c hc
  unfold linesText at hc
  split at hc
  · rename_i hnil
    rw [hnil] at hc
    cases hc
  · rw [String.toList_append] at hc
    obtain rfl : '\n' = c := by simpa using hc
    decide

theorem oneLine_of_mem_splitLines {file line : String} (h : line ∈ splitLines file) :
    OneLine line.toList := by
  obtain ⟨chars,hchars,rfl⟩ := List.mem_map.mp h
  rw [String.toList_ofList]
  exact Text.oneLine_of_mem_lineChars hchars

theorem shouldKeep_record {cutoff : Int} {record : RunLedgerRecord} {line : String} {keep : Bool}
    (hread : loads line = .value (.dict record.payload))
    (hret : InRetention stampDay cutoff record)
    (h : shouldKeep loads stampDay cutoff line = .ok keep) : keep = true := by
  rw [shouldKeep, hread] at h
  dsimp only at h
  cases heffective : effectiveIso record.payload with
  | str text =>
    rw [heffective] at h
    dsimp only at h
    cases hstamp : stampDay text with
    | unreadable =>
      rw [hstamp] at h
      exact (Except.ok.inj h).symm
    | day number =>
      rw [hstamp] at h
      rw [← Except.ok.inj h]
      exact decide_eq_true (hret text heffective number hstamp)
    | raises exc =>
      rw [hstamp] at h
      cases h
  | _ =>
    rw [heffective] at h
    exact (Except.ok.inj h).symm

/-- A prune keeps a record within the retention. -/
theorem holds_prune {cutoff : Int} {file pruned : String} {record : RunLedgerRecord}
    (h : prune loads stampDay cutoff file = .ok pruned) (hret : InRetention stampDay cutoff record)
    (hholds : Holds loads file record) : Holds loads pruned record := by
  obtain ⟨line,hmem,hblank,hread⟩ := hholds
  rw [prune] at h
  cases hkept : keptLines loads stampDay cutoff file with
  | error exc =>
    rw [hkept] at h
    cases h
  | ok kept =>
    rw [hkept] at h
    obtain rfl := Except.ok.inj h
    obtain ⟨p,hp,rfl⟩ := filterM_ok_iff.mp hkept
    have hcandidate : line ∈ (splitLines file).filter fun line => !isBlank line :=
      List.mem_filter.mpr ⟨hmem,by simp [hblank]⟩
    refine ⟨line,?_,hblank,hread⟩
    rw [splitLines_linesText]
    · exact List.mem_filter.mpr ⟨hcandidate,shouldKeep_record hread hret (hp line hcandidate)⟩
    · intro other hother
      exact oneLine_of_mem_splitLines (List.mem_filter.mp (List.mem_filter.mp hother).1).1

theorem lastLineBlank_prune {cutoff : Int} {file pruned : String}
    (h : prune loads stampDay cutoff file = .ok pruned) : LastLineBlank pruned := by
  rw [prune] at h
  cases hkept : keptLines loads stampDay cutoff file with
  | error exc =>
    rw [hkept] at h
    cases h
  | ok kept =>
    rw [hkept] at h
    obtain rfl := Except.ok.inj h
    exact lastLineBlank_of_endsLine (endsLine_linesText kept)

end

/-! ## Appends and a prune interleaved -/

/-- The file at the ledger's path, the handles that writers opened on it, and the file that
the pruner read with the text that it will write. -/
structure LedgerWorld where
  file : String
  attached : List Nat
  snapshot : Option (String × String)
  deriving DecidableEq, Repr

inductive LedgerEvent
  | opened (handle : Nat)
  | written (handle : Nat) (record : RunLedgerRecord)
  | pruneRead (cutoff : Int)
  | pruneReplace
  deriving DecidableEq, Repr

section
variable (loads : String → JsonOutcome) (stampDay : String → StampDay)

def step (s : LedgerWorld) : LedgerEvent → LedgerWorld
  | .opened handle => ⟨s.file,handle::s.attached,s.snapshot⟩
  | .written handle record =>
    -- a handle on a file that was replaced writes to no file of the ledger
    if handle ∈ s.attached then ⟨append s.file record,s.attached.erase handle,s.snapshot⟩ else s
  | .pruneRead cutoff =>
    match prune loads stampDay cutoff s.file with
    | .ok pruned => ⟨s.file,s.attached,some (s.file,pruned)⟩
    | .error _ => ⟨s.file,s.attached,none⟩
  | .pruneReplace =>
    match s.snapshot with
    | some taken => ⟨taken.2,[],none⟩
    | none => s

/-- A plain record through a handle on the present file, and a replacement of the file that
was read. -/
def Undisturbed (s : LedgerWorld) : LedgerEvent → Prop
  | .written handle record => handle ∈ s.attached ∧ record.Plain ∧ ReadsBack loads record
  | .pruneReplace => ∀ taken, s.snapshot = some taken → taken.1 = s.file
  | _ => True

def Retained (record : RunLedgerRecord) : LedgerEvent → Prop
  | .pruneRead cutoff => InRetention stampDay cutoff record
  | _ => True

/-- The last line is ended, and what the pruner will write keeps the record. -/
structure Sound (record : RunLedgerRecord) (s : LedgerWorld) : Prop where
  ended : LastLineBlank s.file
  snapshot : ∀ taken, s.snapshot = some taken → LastLineBlank taken.2 ∧
    (Holds loads taken.1 record → Holds loads taken.2 record)

end

section
variable {loads : String → JsonOutcome} {stampDay : String → StampDay}

theorem step_sound {record : RunLedgerRecord} (s : LedgerWorld) (e : LedgerEvent)
    (hs : Sound loads record s) (h : Undisturbed loads s e ∧ Retained stampDay record e) :
    Sound loads record (step loads stampDay s e) := by
  cases e with
  | opened handle => exact ⟨hs.ended,hs.snapshot⟩
  | written handle other =>
    rw [step, if_pos h.1.1]
    exact ⟨lastLineBlank_of_endsLine (endsLine_append _ _),hs.snapshot⟩
  | pruneRead cutoff =>
    rw [step]
    cases hprune : prune loads stampDay cutoff s.file with
    | error exc => exact ⟨hs.ended,fun taken htaken => by cases htaken⟩
    | ok pruned =>
      refine ⟨hs.ended,fun taken htaken => ?_⟩
      obtain rfl := Option.some.inj htaken
      exact ⟨lastLineBlank_prune hprune,holds_prune hprune h.2⟩
  | pruneReplace =>
    rw [step]
    cases hsnapshot : s.snapshot with
    | none => exact hs
    | some taken => exact ⟨(hs.snapshot taken hsnapshot).1,fun _ htaken => by cases htaken⟩

theorem step_holds {record : RunLedgerRecord} (s : LedgerWorld) (e : LedgerEvent)
    (hs : Sound loads record s) (h : Undisturbed loads s e) (hholds : Holds loads s.file record) :
    Holds loads (step loads stampDay s e).file record := by
  cases e with
  | opened handle => exact hholds
  | written handle other =>
    rw [step, if_pos h.1]
    exact holds_append h.2.1 hs.ended hholds
  | pruneRead cutoff =>
    rw [step]
    cases prune loads stampDay cutoff s.file <;> exact hholds
  | pruneReplace =>
    rw [step]
    cases hsnapshot : s.snapshot with
    | none => exact hholds
    | some taken =>
      apply (hs.snapshot taken hsnapshot).2
      rw [h taken hsnapshot]
      exact hholds

theorem run_sound {record : RunLedgerRecord} {s : LedgerWorld} {es : List LedgerEvent}
    (hs : Sound loads record s) (hrun : AllSteps (step loads stampDay) (Undisturbed loads) s es)
    (hret : ∀ e ∈ es, Retained stampDay record e) :
    Sound loads record (run (step loads stampDay) s es) :=
  run_invariant step_sound hs (hrun.and (allSteps_of_mem hret s))

theorem run_holds {record : RunLedgerRecord} {s : LedgerWorld} {es : List LedgerEvent}
    (hs : Sound loads record s) (hrun : AllSteps (step loads stampDay) (Undisturbed loads) s es)
    (hret : ∀ e ∈ es, Retained stampDay record e) (h : Holds loads s.file record) :
    Holds loads (run (step loads stampDay) s es).file record := by
  have hstep : ∀ s e, Sound loads record s ∧ Holds loads s.file record →
      Undisturbed loads s e ∧ Retained stampDay record e →
      Sound loads record (step loads stampDay s e) ∧
        Holds loads (step loads stampDay s e).file record := by
    intro s e hboth h
    exact ⟨step_sound s e hboth.1 h,step_holds s e hboth.1 h.1 hboth.2⟩
  exact (run_invariant (I := fun s => Sound loads record s ∧ Holds loads s.file record) hstep
    ⟨hs,h⟩ (hrun.and (allSteps_of_mem hret s))).2

/-- Undisturbed appends and prunes lose no record within the retention. -/
theorem run_keeps {s : LedgerWorld} {es : List LedgerEvent} (hfile : LastLineBlank s.file)
    (hsnapshot : s.snapshot = none)
    (hrun : AllSteps (step loads stampDay) (Undisturbed loads) s es) {record : RunLedgerRecord}
    (hret : ∀ e ∈ es, Retained stampDay record e) {handle : Nat}
    (hwritten : .written handle record ∈ es) :
    Holds loads (run (step loads stampDay) s es).file record := by
  have hsound : Sound loads record s := by
    refine ⟨hfile,fun taken htaken => ?_⟩
    rw [hsnapshot] at htaken
    cases htaken
  obtain ⟨before,after,rfl⟩ := List.append_of_mem hwritten
  rw [allSteps_append] at hrun
  have hretBefore : ∀ e ∈ before, Retained stampDay record e :=
    fun e he => hret e (List.mem_append_left _ he)
  have hretAfter : ∀ e ∈ after, Retained stampDay record e :=
    fun e he => hret e (List.mem_append_right _ (List.mem_cons_of_mem _ he))
  have hreached := run_sound hsound hrun.1 hretBefore
  obtain ⟨hattached,hplain,hread⟩ := hrun.2.1
  rw [run_append, run]
  apply run_holds (step_sound _ _ hreached ⟨hrun.2.1,trivial⟩) hrun.2.2 hretAfter
  rw [step, if_pos hattached]
  exact holds_append_self hplain hreached.ended hread

end

/-! ## The three promises -/

/-- A record is read back where it took a line of its own, which the text of the record and
the file decide; the readers raise nothing where they can read what they reach; and an
undisturbed run keeps what the retention covers. -/
theorem ledger_kept_iff (loads : String → JsonOutcome) (stampDay : String → StampDay) :
    (∀ file record,
      ((∃ blanks, Blanks blanks ∧
          (splitLines (append file record)).getLast? = some (blanks ++ record.line)) ↔
        record.Plain ∧ LastLineBlank file) ∧
      (record.Plain ∧ LastLineBlank file → ReadsBack loads record →
        latestRecord loads (append file record) = .ok (some record))) ∧
    (∀ bytes, (∃ found, latestRecordOf loads bytes = .ok found) ↔
      ∃ file, Text.decodeUtf8 bytes = some file ∧
        ∀ line, (splitLines file).reverse.find? (fun l => !passedOver loads l) = some line →
          ReadsRecord loads line) ∧
    (∀ cutoff bytes, (∃ pruned, pruneOf loads stampDay cutoff bytes = .ok pruned) ↔
      ∃ file, Text.decodeUtf8 bytes = some file ∧
        ∀ line ∈ splitLines file, isBlank line = false → Prunable loads stampDay line) ∧
    (∀ (s : LedgerWorld) es, LastLineBlank s.file → s.snapshot = none →
      AllSteps (step loads stampDay) (Undisturbed loads) s es →
      ∀ record, (∀ e ∈ es, Retained stampDay record e) → ∀ handle,
        .written handle record ∈ es →
          Holds loads (run (step loads stampDay) s es).file record) := by
  refine ⟨fun file record => ⟨getLast_append_iff file record,?_⟩,?_,?_,?_⟩
  · rintro ⟨hplain,hfile⟩ hread
    exact latestRecord_append hplain hfile hread
  · intro bytes
    rw [latestRecordOf, readText_bind_ok_iff]
    exact exists_congr fun file => and_congr_right fun _ => latestOf_ok_iff _
  · intro cutoff bytes
    rw [pruneOf, readText_bind_ok_iff]
    exact exists_congr fun file => and_congr_right fun _ => prune_ok_iff cutoff file
  · intro s es hfile hsnapshot hrun record hret handle hwritten
    exact run_keeps hfile hsnapshot hrun hret hwritten

def separatedRecord : RunLedgerRecord :=
  ⟨"a\u2028b","p","mapping","2026-06-01T08:00:00+00:00",none,"OK",{},none,none,none⟩

def plainRecord : RunLedgerRecord := { separatedRecord with runId := "a" }

def uncountableLine : String := "\x7b\"row_counters\": \x7b\"rows_total\": \"x\"\x7d\x7d"

/-- `json.loads` on the lines below: a number, an object whose counter is no number, and parts
of a text that are no JSON. -/
def sampleLoads (line : String) : JsonOutcome :=
  if line = "5" then .value (.int 5)
  else if line = uncountableLine then
    .value (.dict [("row_counters",.dict [("rows_total",.str "x")])])
  else .decodeError

theorem latestOf_none {loads : String → JsonOutcome} {lines : List String}
    (h : ∀ line ∈ lines, loads line = .decodeError) : latestOf loads lines = .ok none := by
  induction lines with
  | nil => rfl
  | cons line lines ih =>
    rw [latestOf, h line List.mem_cons_self,
      ih fun other hother => h other (List.mem_cons_of_mem _ hother)]
    dsimp only
    exact ite_self _

set_option maxRecDepth 20000 in
theorem separatedRecord_starts :
    (lineChars (Value.jsonChars (.dict separatedRecord.payload) ++ ['\n'])).map (List.take 4) =
      [['\x7b','"','r','u'],['b','"',',',' ']] := by
  decide

theorem sampleLoads_separated {line : String} (h : line ∈ splitLines (append "" separatedRecord)) :
    sampleLoads line = .decodeError := by
  obtain ⟨chars,hchars,rfl⟩ := List.mem_map.mp h
  rw [toList_append, String.toList_empty, List.nil_append, RunLedgerRecord.line, Value.dumps,
    String.toList_ofList] at hchars
  have hstart : chars.take 4 ∈ [['\x7b','"','r','u'],['b','"',',',' ']] := by
    rw [← separatedRecord_starts]
    exact List.mem_map_of_mem hchars
  have hother (text : String)
      (ht : text.toList.take 4 ∉ [['\x7b','"','r','u'],['b','"',',',' ']]) :
      String.ofList chars ≠ text := by
    rintro rfl
    rw [String.toList_ofList] at ht
    exact ht hstart
  have hnumber := hother "5" (by decide)
  have huncountable := hother uncountableLine (by decide)
  rw [sampleLoads, if_neg hnumber, if_neg huncountable]

/-- A text with U+2028 breaks its line, a number and a counter that is no number raise, and an
append between the read and the replacement is lost. -/
theorem separated_record_lost :
    latestRecord sampleLoads (append "" separatedRecord) = .ok none ∧
    prune sampleLoads (fun _ => .day 0) 0 "5\n" =
      .error ⟨"AttributeError","'int' object has no attribute 'get'"⟩ ∧
    latestRecord sampleLoads (uncountableLine ++ "\n") =
      .error ⟨"ValueError","invalid literal for int() with base 10: 'x'"⟩ ∧
    (run (step sampleLoads fun _ => .day 0) ⟨"",[],none⟩
      [.pruneRead 0,.opened 1,.written 1 plainRecord,.pruneReplace]).file = "" := by
  refine ⟨latestOf_none fun line hline => ?_,by decide,by decide,rfl⟩
  exact sampleLoads_separated (List.mem_reverse.mp hline)

end NexusEtl.JsonlRunLedger
