import NexusEtl.RunLedger
import NexusEtl.Library.Runs

/-!
# One record a line

The writer escapes the control characters of a text and keeps U+0085, U+2028 and U+2029,
at which the reader ends a line as well. A record without them takes one line behind a
file whose last line is ended, and is found there.
-/

set_option autoImplicit false

namespace NexusEtl
open NexusEtl.Library

namespace Text

/-- The line ends that a JSON text shows as they are. -/
def rawLineEnds : List Nat := [0x85,0x2028,0x2029]

def Plain (s : String) : Prop := ∀ c ∈ s.toList, c.toNat ∉ rawLineEnds

instance (s : String) : Decidable (Plain s) :=
  List.decidableBAll (fun c : Char => c.toNat ∉ rawLineEnds) s.toList

def OneLine (cs : List Char) : Prop := ∀ c ∈ cs, isLineEnd c = false

instance (cs : List Char) : Decidable (OneLine cs) :=
  List.decidableBAll (fun c : Char => isLineEnd c = false) cs

@[simp]
theorem oneLine_nil : OneLine [] := fun _ h => absurd h List.not_mem_nil

@[simp]
theorem oneLine_cons {c : Char} {cs : List Char} :
    OneLine (c::cs) ↔ isLineEnd c = false ∧ OneLine cs := List.forall_mem_cons

@[simp]
theorem oneLine_append {a b : List Char} : OneLine (a ++ b) ↔ OneLine a ∧ OneLine b :=
  List.forall_mem_append

theorem isLineEnd_iff (c : Char) :
    isLineEnd c = true ↔ c.toNat ∈ [0xa,0xb,0xc,0xd,0x1c,0x1d,0x1e] ++ rawLineEnds := by
  simp [isLineEnd, inRanges, lineEndRanges, rawLineEnds]
  omega

theorem isLineEnd_of_code {c : Char} (h : 32 ≤ c.toNat) (hraw : c.toNat ∉ rawLineEnds) :
    isLineEnd c = false := by
  rw [Bool.eq_false_iff, ne_eq, isLineEnd_iff, List.mem_append, not_or]
  refine ⟨?_,hraw⟩
  simp only [List.mem_cons, List.not_mem_nil, or_false]
  omega

theorem isLineEnd_of_mem_rawLineEnds {c : Char} (h : c.toNat ∈ rawLineEnds) :
    isLineEnd c = true := by
  rw [isLineEnd_iff, List.mem_append]
  exact .inr h

theorem isLineEnd_hexDigit {n : Nat} (h : n < 16) : isLineEnd (hexDigit n) = false := by
  have hall : ∀ n < 16, isLineEnd (hexDigit n) = false := by decide
  exact hall n h

theorem oneLine_jsonEscape {c : Char} : OneLine (jsonEscape c) ↔ c.toNat ∉ rawLineEnds := by
  rcases jsonEscape_cases c with ⟨e,he,hcode,hc⟩ | ⟨hlt,hc⟩ | ⟨_,hc⟩
  · have hall : ∀ e ∈ jsonEscapes, isLineEnd e.2 = false ∧ e.1 ∉ rawLineEnds := by decide
    rw [hc, ← hcode]
    refine iff_of_true ?_ (hall e he).2
    simp [(hall e he).1]
    decide
  · have hraw : ∀ n < 32, n ∉ rawLineEnds := by decide
    rw [hc]
    refine iff_of_true ?_ (hraw _ hlt)
    simp only [oneLine_cons, oneLine_nil, and_true]
    exact ⟨by decide,by decide,by decide,by decide,isLineEnd_hexDigit (by omega),
      isLineEnd_hexDigit (by omega)⟩
  · rw [hc, oneLine_cons]
    constructor
    · rintro ⟨hend,_⟩ hraw
      rw [isLineEnd_of_mem_rawLineEnds hraw] at hend
      cases hend
    · intro hraw
      refine ⟨?_,oneLine_nil⟩
      by_cases hcode : 32 ≤ c.toNat
      · exact isLineEnd_of_code hcode hraw
      · -- a control character is escaped
        have hall : ∀ n < 32, jsonEscape (Char.ofNat n) ≠ [Char.ofNat n] := by decide
        have hescaped := hall c.toNat (by omega)
        rw [Char.ofNat_toNat] at hescaped
        exact absurd hc hescaped

theorem oneLine_flatMap {f : Char → List Char} {cs : List Char} :
    OneLine (cs.flatMap f) ↔ ∀ c ∈ cs, OneLine (f c) := by
  induction cs with
  | nil => simp
  | cons c cs ih => rw [List.flatMap_cons, oneLine_append, ih, List.forall_mem_cons]

theorem oneLine_jsonString {s : String} : OneLine (jsonString s).toList ↔ Plain s := by
  have hquote : isLineEnd (Char.ofNat 34) = false := by decide
  rw [jsonString, String.toList_ofList, oneLine_cons, oneLine_append, oneLine_cons,
    oneLine_flatMap]
  simp only [hquote, oneLine_nil, and_true, true_and, oneLine_jsonEscape]
  rfl

theorem oneLine_of_mem_lineChars {cs line : List Char} (h : line ∈ lineChars cs) :
    OneLine line := by
  induction cs using lineChars.induct generalizing line with
  | case1 => cases h
  | case2 cs ih =>
    rw [lineChars, List.mem_cons] at h
    rcases h with rfl | h
    · exact oneLine_nil
    · exact ih h
  | case3 c cs hne hend ih =>
    have hhead : c = '\r' → cs.head? ≠ some '\n' := by
      rintro rfl hd
      obtain ⟨ds,rfl⟩ := List.head?_eq_some_iff.mp hd
      exact hne ds rfl rfl
    rw [lineChars_end hend hhead, List.mem_cons] at h
    rcases h with rfl | h
    · exact oneLine_nil
    · exact ih h
  | case4 c cs _ hend ih =>
    have hend' : isLineEnd c = false := by simpa using hend
    rw [lineChars_cons hend'] at h
    cases hlines : lineChars cs with
    | nil =>
      rw [hlines, onFirstLine, List.mem_singleton] at h
      rw [h]
      simp [hend']
    | cons first rest =>
      rw [hlines, onFirstLine, List.mem_cons] at h
      rw [hlines] at ih
      rcases h with rfl | h
      · exact oneLine_cons.mpr ⟨hend',ih List.mem_cons_self⟩
      · exact ih (List.mem_cons_of_mem _ h)

end Text

namespace Value
open Text (OneLine)

mutual
/-- No text inside has a line end that stays. -/
def Plain : Value → Prop
  | .str s => Text.Plain s
  | .list items => PlainItems items
  | .dict fields => PlainFields fields
  | _ => True

def PlainItems : List Value → Prop
  | [] => True
  | v::vs => Plain v ∧ PlainItems vs

def PlainFields : List (String × Value) → Prop
  | [] => True
  | (k,v)::kvs => Text.Plain k ∧ Plain v ∧ PlainFields kvs
end

theorem isLineEnd_of_inNumber {c : Char} (h : inNumber c = true) : Text.isLineEnd c = false := by
  apply Text.isLineEnd_of_code
  · simp only [inNumber, Char.isDigit, Bool.or_eq_true, Bool.and_eq_true, decide_eq_true_eq,
      beq_iff_eq] at h
    rcases h with (h | rfl) | rfl
    · have := UInt32.le_iff_toNat_le.mp h.1
      exact Nat.le_trans (by decide) this
    · decide
    · decide
  · intro hraw
    simp only [Text.rawLineEnds, List.mem_cons, List.not_mem_nil, or_false] at hraw
    simp only [inNumber, Char.isDigit, Bool.or_eq_true, Bool.and_eq_true, decide_eq_true_eq,
      beq_iff_eq] at h
    rcases h with (h | rfl) | rfl
    · have hle : c.toNat ≤ 57 := UInt32.le_iff_toNat_le.mp h.2
      omega
    · exact absurd hraw (by decide)
    · exact absurd hraw (by decide)

theorem oneLine_jsonNumber {cs : List Char} (h : ∀ c ∈ cs, inNumber c = true) : OneLine cs :=
  fun c hc => isLineEnd_of_inNumber (h c hc)

mutual
theorem oneLine_jsonChars : ∀ v : Value, OneLine v.jsonChars ↔ v.Plain
  | .null => iff_of_true (by rw [jsonChars]; simp; decide) trivial
  | .bool b => by
    rw [jsonChars]
    refine iff_of_true ?_ trivial
    cases b <;> (simp; decide)
  | .int n => by
    rw [jsonChars]
    exact iff_of_true (oneLine_jsonNumber fun c hc => inNumber_intText hc) trivial
  | .float q => by
    rw [jsonChars]
    exact iff_of_true (oneLine_jsonNumber fun c hc => FloatText.inNumber_floatRepr q hc) trivial
  | .str s => by
    rw [jsonChars]
    exact Text.oneLine_jsonString
  | .list [] => iff_of_true (by rw [jsonChars]; simp; decide) trivial
  | .list (v::vs) => by
    have hopen : Text.isLineEnd '[' = false := by decide
    rw [jsonChars, Text.oneLine_cons, Text.oneLine_append, oneLine_jsonChars v,
      oneLine_jsonItems vs]
    simp [hopen, Plain, PlainItems]
  | .dict [] => iff_of_true (by rw [jsonChars]; simp; decide) trivial
  | .dict ((k,v)::kvs) => by
    have hmarks : OneLine ['\x7b',':',' '] := by decide
    simp only [Text.oneLine_cons] at hmarks
    rw [jsonChars]
    simp [Text.oneLine_jsonString, oneLine_jsonChars v, oneLine_jsonFields kvs, Plain,
      PlainFields, hmarks]

theorem oneLine_jsonItems : ∀ vs : List Value, OneLine (jsonItems vs) ↔ PlainItems vs
  | [] => iff_of_true (by rw [jsonItems]; simp; decide) trivial
  | v::vs => by
    have hmarks : OneLine [',',' '] := by decide
    simp only [Text.oneLine_cons] at hmarks
    rw [jsonItems]
    simp [oneLine_jsonChars v, oneLine_jsonItems vs, PlainItems, hmarks]

theorem oneLine_jsonFields : ∀ kvs : List (String × Value),
    OneLine (jsonFields kvs) ↔ PlainFields kvs
  | [] => iff_of_true (by rw [jsonFields]; simp; decide) trivial
  | (k,v)::kvs => by
    have hmarks : OneLine [',',':',' '] := by decide
    simp only [Text.oneLine_cons] at hmarks
    rw [jsonFields]
    simp [Text.oneLine_jsonString, oneLine_jsonChars v, oneLine_jsonFields kvs, PlainFields,
      hmarks]
end

end Value

namespace RunLedgerRecord

def texts (r : RunLedgerRecord) : List String :=
  [r.runId,r.pipelineRunId,r.component,r.startedAt,r.status] ++ r.finishedAt.toList ++
    r.logPath.toList ++ r.reportPath.toList ++ r.planPath.toList

def Plain (r : RunLedgerRecord) : Prop := ∀ text ∈ r.texts, Text.Plain text

instance (r : RunLedgerRecord) : Decidable r.Plain := List.decidableBAll Text.Plain r.texts

theorem plain_optionalText (o : Option String) :
    (optionalText o).Plain ↔ ∀ text ∈ o.toList, Text.Plain text := by
  cases o with
  | none => exact iff_of_true trivial (fun _ h => absurd h List.not_mem_nil)
  | some text =>
    rw [Option.toList_some, List.forall_mem_singleton]
    rfl

theorem plain_counters (c : RunLedgerRowCounters) : (Value.dict c.payload).Plain := by
  refine ⟨?_,trivial,?_,trivial,?_,trivial,?_,trivial,?_,trivial,?_,trivial,?_,trivial,trivial⟩ <;>
    decide

theorem oneLine_line (r : RunLedgerRecord) : Text.OneLine r.line.toList ↔ r.Plain := by
  have hkeys : ∀ k ∈ ["run_id","pipeline_run_id","component","started_at","finished_at","status",
      "row_counters","log_path","report_path","plan_path"], Text.Plain k := by decide
  simp only [List.forall_mem_cons, List.not_mem_nil, false_implies, implies_true, and_true] at hkeys
  rw [line, Value.dumps, String.toList_ofList, Value.oneLine_jsonChars]
  simp only [payload, Value.Plain, Value.PlainFields, plain_optionalText, hkeys, Plain, texts,
    List.forall_mem_append, List.forall_mem_cons, true_and, and_true]
  have hcounters := plain_counters r.rowCounters
  simp only [Value.Plain] at hcounters
  simp only [hcounters, true_and, List.not_mem_nil, false_implies, implies_true, and_true]
  tauto

end RunLedgerRecord

namespace JsonlRunLedger
open Text (OneLine EndsLine lineChars splitLines)

def jsonBlank (c : Char) : Bool := c == ' ' || c == '\t'

def Blanks (text : String) : Prop := ∀ c ∈ text.toList, jsonBlank c = true

/-- Behind its last line end the file has blanks at most. -/
def LastLineBlank (file : String) : Prop :=
  ∃ whole blanks, file.toList = whole ++ blanks ∧ EndsLine whole ∧
    ∀ c ∈ blanks, jsonBlank c = true

theorem isLineEnd_of_jsonBlank {c : Char} (h : jsonBlank c = true) : Text.isLineEnd c = false := by
  simp only [jsonBlank, Bool.or_eq_true, beq_iff_eq] at h
  rcases h with rfl | rfl <;> decide

/-- The text up to the last line end and the line that it leaves open. -/
theorem exists_openLine (cs : List Char) :
    ∃ whole rest, cs = whole ++ rest ∧ EndsLine whole ∧ OneLine rest := by
  induction cs using List.reverseRecOn with
  | nil => exact ⟨[],[],rfl,fun _ h => absurd h (by simp),Text.oneLine_nil⟩
  | append_singleton cs c ih =>
    cases hend : Text.isLineEnd c with
    | true =>
      refine ⟨cs ++ [c],[],by simp,?_,Text.oneLine_nil⟩
      intro d hd
      obtain rfl : c = d := by simpa using hd
      exact hend
    | false =>
      obtain ⟨whole,rest,rfl,hwhole,hrest⟩ := ih
      refine ⟨whole,rest ++ [c],by simp,hwhole,?_⟩
      simp [hrest, hend]

/-- An open line is closed by the text that follows it. -/
theorem lineChars_closed {whole line : List Char} (hwhole : EndsLine whole) (hline : OneLine line)
    (hne : line ≠ []) : lineChars (whole ++ (line ++ ['\n'])) = lineChars whole ++ [line] := by
  have hhead : (line ++ ['\n']).head? ≠ some '\n' := by
    obtain ⟨c,rest,rfl⟩ := List.exists_cons_of_ne_nil hne
    intro h
    obtain rfl : c = '\n' := by simpa using h
    exact absurd (hline '\n' List.mem_cons_self) (by decide)
  rw [Text.lineChars_append hwhole hhead, Text.lineChars_line hline]
  rfl

theorem lineChars_oneLine {line : List Char} (h : OneLine line) (hne : line ≠ []) :
    lineChars line = [line] := by
  induction line with
  | nil => contradiction
  | cons c line ih =>
    rw [Text.oneLine_cons] at h
    rw [Text.lineChars_cons h.1]
    by_cases hnil : line = []
    · rw [hnil]
      rfl
    · rw [ih h.2 hnil]
      rfl

theorem lineChars_open {whole rest : List Char} (hwhole : EndsLine whole) (hrest : OneLine rest) :
    lineChars (whole ++ rest) = lineChars whole ++ if rest = [] then [] else [rest] := by
  split
  · rename_i h
    rw [h, List.append_nil, List.append_nil]
  · rename_i hne
    have hhead : rest.head? ≠ some '\n' := by
      intro h
      obtain ⟨tail,rfl⟩ := List.head?_eq_some_iff.mp h
      exact absurd (hrest '\n' List.mem_cons_self) (by decide)
    rw [Text.lineChars_append hwhole hhead, lineChars_oneLine hrest hne]

theorem line_cons (record : RunLedgerRecord) : ∃ rest, record.line.toList = '\x7b' :: rest := by
  rw [RunLedgerRecord.line, Value.dumps, String.toList_ofList, RunLedgerRecord.payload,
    Value.jsonChars]
  exact ⟨_,rfl⟩

theorem toList_append (file : String) (record : RunLedgerRecord) :
    (append file record).toList = file.toList ++ (record.line.toList ++ ['\n']) := by
  rw [append, String.toList_append, String.toList_append, List.append_assoc]
  rfl

/-- A plain record goes on the line that the file leaves open. -/
theorem splitLines_append {file : String} {record : RunLedgerRecord} (h : record.Plain)
    {whole rest : List Char} (hfile : file.toList = whole ++ rest) (hwhole : EndsLine whole)
    (hrest : OneLine rest) :
    splitLines (append file record) =
      (lineChars whole).map String.ofList ++ [String.ofList rest ++ record.line] := by
  have hne : rest ++ record.line.toList ≠ [] := by
    obtain ⟨tail,htail⟩ := line_cons record
    rw [htail]
    exact List.append_ne_nil_of_right_ne_nil _ (List.cons_ne_nil _ _)
  have hline : OneLine (rest ++ record.line.toList) :=
    Text.oneLine_append.mpr ⟨hrest,record.oneLine_line.mpr h⟩
  rw [splitLines, toList_append, hfile, List.append_assoc, ← List.append_assoc rest,
    lineChars_closed hwhole hline hne, List.map_append]
  congr 1
  rw [List.map_singleton, String.ofList_append, String.ofList_toList]

/-- The last line after an append is the record's own exactly where the record is plain and
the line before it was ended. -/
theorem getLast_append_iff (file : String) (record : RunLedgerRecord) :
    (∃ blanks, Blanks blanks ∧
        (splitLines (append file record)).getLast? = some (blanks ++ record.line)) ↔
      record.Plain ∧ LastLineBlank file := by
  obtain ⟨whole,rest,hfile,hwhole,hrest⟩ := exists_openLine file.toList
  constructor
  · rintro ⟨blanks,hblanks,hlast⟩
    have hplain : record.Plain := by
      have hmem := List.mem_of_getLast? hlast
      obtain ⟨chars,hchars,hline⟩ := List.mem_map.mp hmem
      have hone := Text.oneLine_of_mem_lineChars hchars
      rw [← String.toList_ofList (l := chars), hline, String.toList_append,
        Text.oneLine_append] at hone
      exact record.oneLine_line.mp hone.2
    refine ⟨hplain,whole,rest,hfile,hwhole,?_⟩
    rw [splitLines_append hplain hfile hwhole hrest, List.getLast?_concat] at hlast
    have hsame : String.ofList rest = blanks := by
      apply String.toList_injective
      have htexts := congrArg String.toList (Option.some.inj hlast)
      rw [String.toList_append, String.toList_append] at htexts
      exact List.append_cancel_right htexts
    intro c hc
    apply hblanks
    rw [← hsame, String.toList_ofList]
    exact hc
  · rintro ⟨hplain,whole,blanks,hfile,hwhole,hblanks⟩
    refine ⟨String.ofList blanks,?_,?_⟩
    · intro c hc
      rw [String.toList_ofList] at hc
      exact hblanks c hc
    · rw [splitLines_append hplain hfile hwhole fun c hc => isLineEnd_of_jsonBlank (hblanks c hc),
        List.getLast?_concat]

end JsonlRunLedger

end NexusEtl
