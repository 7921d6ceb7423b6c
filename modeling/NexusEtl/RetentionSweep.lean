import NexusEtl.Text
import NexusEtl.Timestamps
import NexusEtl.Diagnostics
import Mathlib.Data.List.Perm.Subperm
import Mathlib.Data.List.Sort

/-!
# The retention sweep

The sweeper looks at the files of a directory whose names carry a stamp and the name of
its component. Files with a date before the cutoff go; of the numbered backups with one
stamp the first ones in the order of their numbers stay. A marker file with the date of
the last sweep keeps it to one a day.
-/

set_option autoImplicit false

namespace NexusEtl
open NexusEtl.Library

/-! ## Names -/

/-- The groups of `_STAMP_PATTERN`. -/
structure StampName where
  stamp : String
  component : String
  roll : Option String
  ext : String
  deriving DecidableEq, Repr

namespace StampName

/-- `\d` where the shape has a zero, else the character itself. -/
def fits : List Char → List Char → Bool
  | [], [] => true
  | s::shape, c::cs => (if s = '0' then Text.isDecimalChar c else c = s) && fits shape cs
  | _, _ => false

def dateShape : List Char := "0000-00-00".toList

def timeShape : List Char := "0000-00-00T00-00-00".toList

def splitStamp (cs : List Char) : Option (List Char × List Char) :=
  if fits timeShape (cs.take 19) then some (cs.take 19,cs.drop 19)
  else if fits dateShape (cs.take 10) then some (cs.take 10,cs.drop 10)
  else none

def isExtChar (c : Char) : Bool := ('a' ≤ c && c ≤ 'z') || ('0' ≤ c && c ≤ '9')

def isComponentChar (c : Char) : Bool := isExtChar c || c = '_' || c = '-'

def filled (p : Char → Bool) (s : String) : Bool := s ≠ "" && s.toList.all p

/-- `$` also matches before a line feed at the end. -/
def withoutFinalNewline (cs : List Char) : List Char :=
  if cs.getLast? = some '\n' then cs.dropLast else cs

/-- `_STAMP_PATTERN.match(name)` -/
def parse (name : String) : Option StampName :=
  match splitStamp (withoutFinalNewline name.toList) with
  | some (stamp,'_'::rest) =>
    match Text.splitOn '.' (String.ofList rest) with
    | [component,ext] =>
      if filled isComponentChar component && filled isExtChar ext then
        some ⟨String.ofList stamp,component,none,ext⟩
      else none
    | [component,roll,ext] =>
      if filled isComponentChar component && filled Text.isDecimalChar roll &&
          filled isExtChar ext then
        some ⟨String.ofList stamp,component,some roll,ext⟩
      else none
    | _ => none
  | _ => none

def rollNumber (roll : String) : Nat :=
  roll.toList.foldl (fun n c => 10 * n + (Text.digitValue c).getD 0) 0

/-! ## Dates -/

def between (low high c : Char) : Bool := low ≤ c && c ≤ high

/-- `%m`: `1[0-2]|0[1-9]` -/
def isMonth (a b : Char) : Bool := (a = '1' && between '0' '2' b) || (a = '0' && between '1' '9' b)

/-- `%d`: `3[0-1]|[1-2]\d|0[1-9]` -/
def isDay (a b : Char) : Bool :=
  (a = '3' && between '0' '1' b) || (between '1' '2' a && Text.isDecimalChar b) ||
    (a = '0' && between '1' '9' b)

/-- `%H`: `2[0-3]|[0-1]\d` -/
def isHour (a b : Char) : Bool :=
  (a = '2' && between '0' '3' b) || (between '0' '1' a && Text.isDecimalChar b)

/-- `%M`: `[0-5]\d` -/
def isMinute (a b : Char) : Bool := between '0' '5' a && Text.isDecimalChar b

/-- `%S`: `6[0-1]|[0-5]\d` -/
def isSecond (a b : Char) : Bool := (a = '6' && between '0' '1' b) || isMinute a b

def number (cs : List Char) : Nat := rollNumber (String.ofList cs)

def mismatch (stamp format : String) : PyException :=
  ⟨"ValueError","time data '" ++ stamp ++ "' does not match format '" ++ format ++ "'"⟩

/-- The day of a date, by its number. -/
def dayNumber (year month day : Nat) : Except PyException Nat :=
  if year = 0 then .error ⟨"ValueError","year 0 is out of range"⟩
  else if Calendar.daysInMonth year month < day then
    .error ⟨"ValueError","day is out of range for month"⟩
  else .ok (Calendar.daysBeforeYear year + Calendar.daysBeforeMonth year month + day)

def dateOf (stamp format : String) (y m d : List Char) : Except PyException Nat :=
  match m, d with
  | [m1,m2], [d1,d2] =>
    if isMonth m1 m2 && isDay d1 d2 then dayNumber (number y) (number m) (number d)
    else .error (mismatch stamp format)
  | _, _ => .error (mismatch stamp format)

def isClock : List Char → Bool
  | ['T',h1,h2,'-',n1,n2,'-',s1,s2] => isHour h1 h2 && isMinute n1 n2 && isSecond s1 s2
  | _ => false

def secondRange : PyException := ⟨"ValueError","second must be in 0..59"⟩

/-- `_stamp_to_date`, on the stamps that the pattern finds. -/
def toDate (stamp : String) : Except PyException Nat :=
  let cs := stamp.toList
  let y := cs.take 4
  let m := (cs.drop 5).take 2
  let d := (cs.drop 8).take 2
  if 'T' ∈ cs then
    if isClock (cs.drop 10) then
      match dateOf stamp "%Y-%m-%dT%H-%M-%S" y m d with
      | .error exc => .error exc
      | .ok day => if number (cs.drop 17) < 60 then .ok day else .error secondRange
    else .error (mismatch stamp "%Y-%m-%dT%H-%M-%S")
  else dateOf stamp "%Y-%m-%d" y m d

example : (parse "2026-06-04_applier.2.log").map (fun p => (p.component,p.roll)) =
    some ("applier",some "2") := by decide

example : (toDate "2026-13-45").isOk = false := by decide

end StampName

/-! ## The sweep -/

inductive EntryKind
  | regular | symlink | other
  deriving DecidableEq, Repr

structure DirEntry where
  name : String
  kind : EntryKind
  deriving DecidableEq, Repr

inductive Marker
  | missing | text (content : String) | undecodable | directory
  deriving DecidableEq, Repr

/-- A directory of one kind of artifacts; its marker stands apart. -/
structure ArtifactRoot where
  entries : List DirEntry
  marker : Marker
  distinct : (entries.map DirEntry.name).Nodup

def ArtifactRoot.keep (root : ArtifactRoot) (kept : DirEntry → Bool) (marker : Marker) :
    ArtifactRoot :=
  ⟨root.entries.filter kept,marker,(root.distinct.sublist (List.filter_sublist.map _))⟩

structure SweepPolicy where
  component : String
  retentionDays : Nat
  retentionBackups : Nat

structure RetentionSweepResult where
  deletedFiles : List String
  skippedByMarker : Bool
  deriving DecidableEq, Repr

namespace RetentionSweep

structure Visited where
  deleted : List DirEntry
  candidates : Dict String (List (DirEntry × Option Nat))

/-- The regular files whose names have the stamp pattern and the component. -/
def stampName? (policy : SweepPolicy) (entry : DirEntry) : Option StampName :=
  if entry.kind = .regular then
    (StampName.parse entry.name).filter fun parsed => parsed.component = policy.component
  else none

def addCandidate (visited : Visited) (entry : DirEntry) (parsed : StampName) : Visited :=
  ⟨visited.deleted,Dict.set visited.candidates parsed.stamp
    ((Dict.get? visited.candidates parsed.stamp).getD [] ++
      [(entry,parsed.roll.map StampName.rollNumber)])⟩

def visit (policy : SweepPolicy) (cutoff : Int) (visited : Visited) (entry : DirEntry) :
    Except PyException Visited :=
  match stampName? policy entry with
  | none => .ok visited
  | some parsed =>
    match StampName.toDate parsed.stamp with
    | .error exc => .error exc
    | .ok day =>
      if day < cutoff then .ok { visited with deleted := visited.deleted ++ [entry] }
      else .ok (addCandidate visited entry parsed)

/-- The files deleted so far stay deleted when a later name raises. -/
def visitAll (policy : SweepPolicy) (cutoff : Int) :
    Visited → List DirEntry → Visited × Option PyException
  | visited, [] => (visited,none)
  | visited, entry::entries =>
    match visit policy cutoff visited entry with
    | .error exc => (visited,some exc)
    | .ok next => visitAll policy cutoff next entries

/-- `sorted(backups, key=roll)[retention_backups:]` -/
def beyond (limit : Nat) (backups : List (DirEntry × Nat)) : List DirEntry :=
  ((backups.insertionSort fun a b => a.2 ≤ b.2).drop limit).map Prod.fst

def backupsIn (group : List (DirEntry × Option Nat)) : List (DirEntry × Nat) :=
  group.filterMap fun candidate => candidate.2.map (candidate.1,·)

def surplus (policy : SweepPolicy) (visited : Visited) : List DirEntry :=
  visited.candidates.flatMap fun group => beyond policy.retentionBackups (backupsIn group.2)

def overflowError : PyException := ⟨"OverflowError","date value out of range"⟩

/-- `_delete_expired_files`, with what it has deleted before it raises. -/
def deleteExpiredFiles (policy : SweepPolicy) (today : Nat) (entries : List DirEntry) :
    List DirEntry × Option PyException :=
  if today ≤ policy.retentionDays then ([],some overflowError)
  else match visitAll policy ((today : Int) - policy.retentionDays) ⟨[],[]⟩ entries with
    | (visited,some exc) => (visited.deleted,some exc)
    | (visited,none) => (visited.deleted ++ surplus policy visited,none)

def markerDay (now : Instant) : String := String.ofList (Timestamps.dateChars now)

/-- Whether the marker ends the sweep; a marker that is not UTF-8 raises. -/
def throttled (ignoreMarker : Bool) (now : Instant) (root : ArtifactRoot) : Bool :=
  match ignoreMarker, root.marker with
  | false, .text content => Text.strip content = markerDay now
  | _, _ => false

def readMarker (ignoreMarker : Bool) (root : ArtifactRoot) : Except PyException Unit :=
  match ignoreMarker, root.marker with
  | false, .undecodable => .error ⟨"UnicodeDecodeError","invalid start byte"⟩
  | _, _ => .ok ()

def writeMarker (root : ArtifactRoot) : Except PyException Unit :=
  match root.marker with
  | .directory => .error ⟨"IsADirectoryError","Is a directory"⟩
  | _ => .ok ()

def sortedNames (deleted : List DirEntry) : List String :=
  (deleted.map DirEntry.name).insertionSort (· ≤ ·)

/-- `_sweep_root`; the instant is given in UTC. -/
def sweepRoot (policy : SweepPolicy) (ignoreMarker : Bool) (now : Instant) (root : ArtifactRoot) :
    ArtifactRoot × Except PyException RetentionSweepResult :=
  match readMarker ignoreMarker root with
  | .error exc => (root,.error exc)
  | .ok () =>
    if throttled ignoreMarker now root then (root,.ok ⟨[],true⟩)
    else
      let (deleted,raised) := deleteExpiredFiles policy now.ordinal root.entries
      let kept (entry : DirEntry) : Bool := !deleted.contains entry
      match raised, writeMarker root with
      | some exc, _ => (root.keep kept root.marker,.error exc)
      | none, .error exc => (root.keep kept root.marker,.error exc)
      | none, .ok () => (root.keep kept (.text (markerDay now)),.ok ⟨sortedNames deleted,false⟩)

/-! ## What the sweep is for -/

/-- A file of the component with a valid date before the cutoff. -/
def Expired (policy : SweepPolicy) (cutoff : Int) (entry : DirEntry) : Prop :=
  ∃ parsed day, stampName? policy entry = some parsed ∧
    StampName.toDate parsed.stamp = .ok day ∧ (day : Int) < cutoff

/-- The number of a backup with the stamp and a date that is not before the cutoff. -/
def backup? (policy : SweepPolicy) (cutoff : Int) (stamp : String) (entry : DirEntry) :
    Option (DirEntry × Nat) :=
  match stampName? policy entry with
  | none => none
  | some parsed =>
    match StampName.toDate parsed.stamp with
    | .error _ => none
    | .ok day =>
      if day < cutoff ∨ parsed.stamp ≠ stamp then none
      else parsed.roll.map fun roll => (entry,StampName.rollNumber roll)

/-- A backup beyond the first ones with its stamp, in the order of their numbers. -/
def Surplus (policy : SweepPolicy) (cutoff : Int) (entries : List DirEntry) (entry : DirEntry) :
    Prop :=
  ∃ stamp, entry ∈ beyond policy.retentionBackups
    (entries.filterMap (backup? policy cutoff stamp))

def cutoff (policy : SweepPolicy) (now : Instant) : Int := (now.ordinal : Int) - policy.retentionDays

/-- The sweep returns, deletes exactly the expired files and the surplus backups, leaves the
files of other components, and at the same instant finds nothing more. -/
structure SweepsExactly (policy : SweepPolicy) (ignoreMarker : Bool) (now : Instant)
    (root : ArtifactRoot) : Prop where
  returns : ∃ deleted, (sweepRoot policy ignoreMarker now root).2 = .ok ⟨deleted,false⟩
  deletes : ∀ entry, entry ∈ (sweepRoot policy ignoreMarker now root).1.entries ↔
    entry ∈ root.entries ∧ ¬ Expired policy (cutoff policy now) entry ∧
      ¬ Surplus policy (cutoff policy now) root.entries entry
  others : ∀ entry ∈ root.entries, stampName? policy entry = none →
    entry ∈ (sweepRoot policy ignoreMarker now root).1.entries
  again : ∀ ignore, (sweepRoot policy ignore now
      (sweepRoot policy ignoreMarker now root).1).1.entries =
    (sweepRoot policy ignoreMarker now root).1.entries

/-- Every regular file of the component whose name has the shape of a stamp is dated, and
cutoff and marker raise nothing. -/
structure Sweepable (policy : SweepPolicy) (ignoreMarker : Bool) (now : Instant)
    (root : ArtifactRoot) : Prop where
  dated : ∀ entry ∈ root.entries, ∀ parsed, stampName? policy entry = some parsed →
    ∃ day, StampName.toDate parsed.stamp = .ok day
  cutoff : policy.retentionDays < now.ordinal
  marker : root.marker ≠ .directory
  readable : ignoreMarker = true ∨ root.marker ≠ .undecodable

/-! ## The visit of the directory -/

variable {policy : SweepPolicy} {limit : Int}

def group (visited : Visited) (stamp : String) : List (DirEntry × Nat) :=
  backupsIn ((Dict.get? visited.candidates stamp).getD [])

/-- What a visit that raises nothing adds. -/
structure Adds (policy : SweepPolicy) (limit : Int) (visited : Visited) (entries : List DirEntry)
    (next : Visited) : Prop where
  deleted : ∀ entry, entry ∈ next.deleted ↔
    entry ∈ visited.deleted ∨ entry ∈ entries ∧ Expired policy limit entry
  backups : ∀ stamp, group next stamp =
    group visited stamp ++ entries.filterMap (backup? policy limit stamp)
  keys : (Dict.keys visited.candidates).Nodup → (Dict.keys next.candidates).Nodup

theorem Adds.nil (visited : Visited) : Adds policy limit visited [] visited :=
  ⟨fun entry => by simp,fun stamp => by simp,id⟩

theorem Adds.cons {visited next last : Visited} {entry : DirEntry} {entries : List DirEntry}
    (h : Adds policy limit visited [entry] next) (h' : Adds policy limit next entries last) :
    Adds policy limit visited (entry :: entries) last := by
  refine ⟨fun other => ?_,fun stamp => ?_,fun hkeys => h'.keys (h.keys hkeys)⟩
  · rw [h'.deleted, h.deleted, List.mem_singleton, List.mem_cons]
    tauto
  · rw [h'.backups, h.backups, List.append_assoc, ← List.filterMap_append, List.singleton_append]

theorem backupsIn_append (a b : List (DirEntry × Option Nat)) :
    backupsIn (a ++ b) = backupsIn a ++ backupsIn b := List.filterMap_append

/-- One entry: what the visit does with each kind of it. -/
theorem visit_adds {visited next : Visited} {entry : DirEntry}
    (h : visit policy limit visited entry = .ok next) :
    Adds policy limit visited [entry] next := by
  unfold visit at h
  cases hname : stampName? policy entry with
  | none =>
    rw [hname] at h
    obtain rfl := Except.ok.inj h
    refine ⟨fun other => ?_,fun stamp => by simp [backup?, hname],id⟩
    rw [List.mem_singleton]
    refine (or_iff_left ?_).symm
    rintro ⟨rfl,parsed,_,hparsed,_⟩
    rw [hname] at hparsed
    cases hparsed
  | some parsed =>
    rw [hname] at h
    dsimp only at h
    cases hdate : StampName.toDate parsed.stamp with
    | error exc => rw [hdate] at h; cases h
    | ok day =>
      rw [hdate] at h
      dsimp only at h
      have hexpired : Expired policy limit entry ↔ (day : Int) < limit := by
        simp [Expired, hname, hdate]
      split at h
      · rename_i hday
        obtain rfl := Except.ok.inj h
        refine ⟨fun other => ?_,fun stamp => ?_,id⟩
        · rw [List.mem_append, List.mem_singleton]
          refine or_congr_right ⟨?_,And.left⟩
          rintro rfl
          exact ⟨rfl,hexpired.mpr hday⟩
        · simp [group, backup?, hname, hdate, hday]
      · rename_i hday
        obtain rfl := Except.ok.inj h
        refine ⟨fun other => ?_,fun stamp => ?_,fun hkeys => Dict.nodup_keys_set hkeys _ _⟩
        · rw [List.mem_singleton]
          refine (or_iff_left ?_).symm
          rintro ⟨rfl,hother⟩
          exact hday (hexpired.mp hother)
        · rw [group, addCandidate, Dict.get?_set]
          by_cases hstamp : parsed.stamp = stamp
          · subst hstamp
            rw [if_pos rfl, Option.getD_some, backupsIn_append, group]
            cases hroll : parsed.roll with
            | none => simp [backupsIn, backup?, hname, hdate, hday, hroll]
            | some roll => simp [backupsIn, backup?, hname, hdate, hday, hroll]
          · rw [if_neg hstamp]
            simp [group, backup?, hname, hdate, hstamp]

/-- The visit raises nothing exactly when the stamps of the component are dates. -/
theorem visitAll_none_iff (visited : Visited) (entries : List DirEntry) :
    (visitAll policy limit visited entries).2 = none ↔
      ∀ entry ∈ entries, ∀ parsed, stampName? policy entry = some parsed →
        ∃ day, StampName.toDate parsed.stamp = .ok day := by
  induction entries generalizing visited with
  | nil => simp [visitAll]
  | cons entry entries ih =>
    rw [visitAll, List.forall_mem_cons]
    cases hvisit : visit policy limit visited entry with
    | error exc =>
      refine iff_of_false (by simp) fun h => ?_
      unfold visit at hvisit
      cases hname : stampName? policy entry with
      | none => rw [hname] at hvisit; cases hvisit
      | some parsed =>
        obtain ⟨day,hday⟩ := h.1 parsed hname
        rw [hname] at hvisit
        dsimp only at hvisit
        rw [hday] at hvisit
        dsimp only at hvisit
        split at hvisit <;> cases hvisit
    | ok next =>
      dsimp only
      rw [ih next, and_iff_right]
      intro parsed hname
      unfold visit at hvisit
      rw [hname] at hvisit
      dsimp only at hvisit
      cases hdate : StampName.toDate parsed.stamp with
      | error exc => rw [hdate] at hvisit; cases hvisit
      | ok day => exact ⟨day,rfl⟩

theorem visitAll_adds {visited : Visited} {entries : List DirEntry}
    (h : (visitAll policy limit visited entries).2 = none) :
    Adds policy limit visited entries (visitAll policy limit visited entries).1 := by
  induction entries generalizing visited with
  | nil => exact .nil visited
  | cons entry entries ih =>
    rw [visitAll] at h ⊢
    cases hvisit : visit policy limit visited entry with
    | error exc => rw [hvisit] at h; cases h
    | ok next =>
      rw [hvisit] at h
      exact (visit_adds hvisit).cons (ih h)

theorem mem_surplus {visited : Visited} (hkeys : (Dict.keys visited.candidates).Nodup)
    {entry : DirEntry} :
    entry ∈ surplus policy visited ↔
      ∃ stamp, entry ∈ beyond policy.retentionBackups (group visited stamp) := by
  rw [surplus, List.mem_flatMap]
  constructor
  · rintro ⟨⟨stamp,candidates⟩,hmem,hentry⟩
    refine ⟨stamp,?_⟩
    rwa [group, (Dict.mem_iff_get? hkeys).mp hmem, Option.getD_some]
  · rintro ⟨stamp,hentry⟩
    cases hget : Dict.get? visited.candidates stamp with
    | none =>
      rw [group, hget] at hentry
      simp [beyond, backupsIn] at hentry
    | some candidates =>
      rw [group, hget] at hentry
      exact ⟨(stamp,candidates),Dict.mem_of_get? hget,hentry⟩

/-! ## The deleted files -/

variable {today : Nat} {entries : List DirEntry}

theorem deleteExpiredFiles_none_iff :
    (deleteExpiredFiles policy today entries).2 = none ↔ policy.retentionDays < today ∧
      ∀ entry ∈ entries, ∀ parsed, stampName? policy entry = some parsed →
        ∃ day, StampName.toDate parsed.stamp = .ok day := by
  rw [deleteExpiredFiles]
  split
  · rename_i h
    exact iff_of_false (by simp) (fun h' => absurd h'.1 (by omega))
  · rename_i h
    rw [and_iff_right (by omega),
      ← @visitAll_none_iff policy ((today : Int) - policy.retentionDays) ⟨[],[]⟩]
    split <;> simp_all

/-- What is deleted: the expired files and the surplus backups. -/
theorem mem_deleteExpiredFiles (h : (deleteExpiredFiles policy today entries).2 = none)
    {entry : DirEntry} :
    entry ∈ (deleteExpiredFiles policy today entries).1 ↔
      entry ∈ entries ∧ Expired policy ((today : Int) - policy.retentionDays) entry ∨
        Surplus policy ((today : Int) - policy.retentionDays) entries entry := by
  obtain ⟨hcutoff,hdated⟩ := deleteExpiredFiles_none_iff.mp h
  have hnone := (@visitAll_none_iff policy ((today : Int) - policy.retentionDays) ⟨[],[]⟩
    entries).mpr hdated
  have hadds := visitAll_adds hnone
  have hkeys := hadds.keys List.nodup_nil
  rw [deleteExpiredFiles, if_neg (by omega)]
  cases hvisit : visitAll policy ((today : Int) - policy.retentionDays) ⟨[],[]⟩ entries with
  | mk visited raised =>
    rw [hvisit] at hnone hadds hkeys
    obtain rfl : raised = none := hnone
    dsimp only at hadds hkeys ⊢
    rw [List.mem_append, hadds.deleted, mem_surplus hkeys]
    simp only [hadds.backups, List.not_mem_nil, false_or, Surplus]
    simp [group, backupsIn]

theorem backup?_fst {stamp : String} {entry : DirEntry} {backup : DirEntry × Nat}
    (h : backup? policy limit stamp entry = some backup) : backup.1 = entry := by
  unfold backup? at h
  split at h
  · cases h
  · split at h
    · cases h
    · split at h
      · cases h
      · obtain ⟨roll,_,rfl⟩ := Option.map_eq_some_iff.mp h
        rfl

/-- A surplus backup is one of the entries, with a name of the component. -/
theorem Surplus.mem {entry : DirEntry} (h : Surplus policy limit entries entry) :
    entry ∈ entries ∧ stampName? policy entry ≠ none := by
  obtain ⟨stamp,h⟩ := h
  rw [beyond, List.mem_map] at h
  obtain ⟨backup,hbackup,rfl⟩ := h
  have hmem := (List.mem_insertionSort _).mp (List.mem_of_mem_drop hbackup)
  obtain ⟨entry,hentry,hsome⟩ := List.mem_filterMap.mp hmem
  obtain rfl := backup?_fst hsome
  refine ⟨hentry,fun hnone => ?_⟩
  rw [backup?, hnone] at hsome
  cases hsome

/-- Where the surplus is gone, no stamp has more backups than the limit. -/
theorem not_surplus_filter (hentries : entries.Nodup) {kept : DirEntry → Bool}
    (hkept : ∀ entry ∈ entries, Surplus policy limit entries entry → kept entry = false)
    (entry : DirEntry) : ¬ Surplus policy limit (entries.filter kept) entry := by
  rintro ⟨stamp,h⟩
  have hinj : ∀ a b backup, backup ∈ backup? policy limit stamp a →
      backup ∈ backup? policy limit stamp b → a = b :=
    fun a b backup ha hb => (backup?_fst ha).symm.trans (backup?_fst hb)
  have hsub : (entries.filter kept).filterMap (backup? policy limit stamp) ⊆
      ((entries.filterMap (backup? policy limit stamp)).insertionSort
        fun a b => a.2 ≤ b.2).take policy.retentionBackups := by
    intro backup hbackup
    obtain ⟨file,hfile,hsome⟩ := List.mem_filterMap.mp hbackup
    obtain ⟨hmem,hkeep⟩ := List.mem_filter.mp hfile
    have hsort := (List.mem_insertionSort fun a b : DirEntry × Nat => a.2 ≤ b.2).mpr
      (List.mem_filterMap.mpr ⟨file,hmem,hsome⟩)
    rw [← List.take_append_drop policy.retentionBackups (List.insertionSort _ _),
      List.mem_append] at hsort
    refine hsort.resolve_right fun hdrop => ?_
    have hsurplus : Surplus policy limit entries file :=
      ⟨stamp,List.mem_map.mpr ⟨backup,hdrop,backup?_fst hsome⟩⟩
    rw [hkept file hmem hsurplus] at hkeep
    cases hkeep
  have hnodup := (hentries.filter kept).filterMap hinj
  have hlength := (List.Nodup.subperm hnodup hsub).length_le
  rw [List.length_take] at hlength
  rw [beyond, List.drop_eq_nil_of_le, List.map_nil] at h
  · cases h
  · rw [List.length_insertionSort]
    omega

/-! ## The sweep of a directory -/

variable {ignoreMarker : Bool} {now : Instant} {root : ArtifactRoot}

theorem readMarker_ok_iff :
    readMarker ignoreMarker root = .ok () ↔ ignoreMarker = true ∨ root.marker ≠ .undecodable := by
  unfold readMarker
  cases ignoreMarker <;> cases root.marker <;> simp

theorem writeMarker_ok_iff : writeMarker root = .ok () ↔ root.marker ≠ .directory := by
  unfold writeMarker
  cases root.marker <;> simp

/-- A sweep that the marker does not end returns exactly when everything is sweepable. -/
theorem sweepRoot_returns_iff (hthrottle : throttled ignoreMarker now root = false) :
    (∃ deleted, (sweepRoot policy ignoreMarker now root).2 = .ok ⟨deleted,false⟩) ↔
      Sweepable policy ignoreMarker now root := by
  have hsweepable : Sweepable policy ignoreMarker now root ↔
      readMarker ignoreMarker root = .ok () ∧
        (deleteExpiredFiles policy now.ordinal root.entries).2 = none ∧
          writeMarker root = .ok () := by
    rw [readMarker_ok_iff, deleteExpiredFiles_none_iff, writeMarker_ok_iff]
    exact ⟨fun h => ⟨h.readable,⟨h.cutoff,h.dated⟩,h.marker⟩,
      fun ⟨hreadable,⟨hcutoff,hdated⟩,hmarker⟩ => ⟨hdated,hcutoff,hmarker,hreadable⟩⟩
  rw [hsweepable, sweepRoot]
  cases readMarker ignoreMarker root with
  | error exc => simp
  | ok _ =>
    rw [hthrottle]
    cases hdelete : deleteExpiredFiles policy now.ordinal root.entries with
    | mk deleted raised =>
      cases raised with
      | some exc => simp
      | none =>
        cases hwrite : writeMarker root with
        | error exc => simp
        | ok _ => simp

/-- What a sweep that returns leaves. -/
theorem sweepRoot_root (hthrottle : throttled ignoreMarker now root = false)
    (h : Sweepable policy ignoreMarker now root) :
    (sweepRoot policy ignoreMarker now root).1 = root.keep
      (fun entry => !(deleteExpiredFiles policy now.ordinal root.entries).1.contains entry)
      (.text (markerDay now)) := by
  have hdelete := deleteExpiredFiles_none_iff.mpr ⟨h.cutoff,h.dated⟩
  rw [sweepRoot, readMarker_ok_iff.mpr h.readable]
  dsimp only
  rw [hthrottle, writeMarker_ok_iff.mpr h.marker]
  cases hvisit : deleteExpiredFiles policy now.ordinal root.entries with
  | mk deleted raised =>
    rw [hvisit] at hdelete
    obtain rfl : raised = none := hdelete
    rfl

theorem mem_sweepRoot (hthrottle : throttled ignoreMarker now root = false)
    (h : Sweepable policy ignoreMarker now root) {entry : DirEntry} :
    entry ∈ (sweepRoot policy ignoreMarker now root).1.entries ↔
      entry ∈ root.entries ∧ ¬ Expired policy (cutoff policy now) entry ∧
        ¬ Surplus policy (cutoff policy now) root.entries entry := by
  have hdelete := deleteExpiredFiles_none_iff.mpr ⟨h.cutoff,h.dated⟩
  rw [sweepRoot_root hthrottle h, ArtifactRoot.keep, List.mem_filter, Bool.not_eq_true',
    Bool.eq_false_iff, Ne, List.contains_iff_mem, mem_deleteExpiredFiles hdelete, ← cutoff]
  tauto

/-- At the same instant a second sweep finds nothing. -/
theorem sweepRoot_again (hthrottle : throttled ignoreMarker now root = false)
    (h : Sweepable policy ignoreMarker now root) (ignore : Bool) :
    (sweepRoot policy ignore now (sweepRoot policy ignoreMarker now root).1).1.entries =
      (sweepRoot policy ignoreMarker now root).1.entries := by
  have hmem := @mem_sweepRoot policy ignoreMarker now root hthrottle h
  have hdelete := deleteExpiredFiles_none_iff.mpr ⟨h.cutoff,h.dated⟩
  have hroot := sweepRoot_root hthrottle h
  have hnext : Sweepable policy ignore now (sweepRoot policy ignoreMarker now root).1 := by
    refine ⟨fun entry hentry => h.dated entry (hmem.mp hentry).1,h.cutoff,?_,.inr ?_⟩
    · rw [hroot]
      exact Marker.noConfusion
    · rw [hroot]
      exact Marker.noConfusion
  cases hagain : throttled ignore now (sweepRoot policy ignoreMarker now root).1 with
  | true =>
    rw [sweepRoot, readMarker_ok_iff.mpr hnext.readable]
    dsimp only
    rw [if_pos hagain]
  | false =>
    have hnone : (deleteExpiredFiles policy now.ordinal
        (sweepRoot policy ignoreMarker now root).1.entries).1 = [] := by
      rw [List.eq_nil_iff_forall_not_mem]
      intro entry
      rw [mem_deleteExpiredFiles (deleteExpiredFiles_none_iff.mpr ⟨hnext.cutoff,hnext.dated⟩)]
      rintro (⟨hentry,hexpired⟩ | hsurplus)
      · exact (hmem.mp hentry).2.1 hexpired
      · rw [hroot] at hsurplus
        refine not_surplus_filter root.distinct.of_map (fun file _ hfile => ?_) entry hsurplus
        rw [Bool.not_eq_false', List.contains_iff_mem, mem_deleteExpiredFiles hdelete]
        exact .inr hfile
    rw [sweepRoot_root hagain hnext, hnone, ArtifactRoot.keep]
    exact List.filter_eq_self.mpr fun entry _ => rfl

end RetentionSweep

open RetentionSweep in
/-- A sweep that its marker does not end is exact just when the stamps of the component's
files are dates and neither the cutoff nor the marker raises. -/
theorem sweep_exact_iff (policy : SweepPolicy) (ignoreMarker : Bool) (now : Instant)
    (root : ArtifactRoot) :
    (throttled ignoreMarker now root = false → SweepsExactly policy ignoreMarker now root) ↔
      (throttled ignoreMarker now root = false → Sweepable policy ignoreMarker now root) := by
  refine imp_congr_right fun hthrottle => ⟨fun h => ?_,fun h => ?_⟩
  · exact (sweepRoot_returns_iff hthrottle).mp h.returns
  · refine ⟨(sweepRoot_returns_iff hthrottle).mpr h,fun entry => mem_sweepRoot hthrottle h,
      fun entry hentry hname => ?_,sweepRoot_again hthrottle h⟩
    refine (mem_sweepRoot hthrottle h).mpr ⟨hentry,?_,fun hsurplus => hsurplus.mem.2 hname⟩
    rintro ⟨parsed,_,hparsed,_⟩
    rw [hname] at hparsed
    cases hparsed

namespace RetentionSweep

def june : Instant :=
  ⟨2026,6,4,10,0,0,0,by decide,by decide,by decide,by decide,Instant.zero_lt_sixty,
    Instant.zero_lt_sixty,Instant.zero_lt_second⟩

/-- An expired file behind one whose name only looks like a stamp. -/
def applierLogs : ArtifactRoot :=
  { entries := [⟨"2026-13-45_applier.log",.regular⟩,⟨"2026-05-01_applier.log",.regular⟩]
    marker := .missing
    distinct := by decide }

end RetentionSweep

open RetentionSweep in
/-- The first name makes the sweep raise, and the expired file stays. -/
theorem impossible_month_stops_sweep :
    ¬ (throttled true june applierLogs = false →
        SweepsExactly ⟨"applier",7,1⟩ true june applierLogs) ∧
      deleteExpiredFiles ⟨"applier",7,1⟩ june.ordinal applierLogs.entries =
        ([],some (StampName.mismatch "2026-13-45" "%Y-%m-%d")) := by
  have hname : stampName? ⟨"applier",7,1⟩ ⟨"2026-13-45_applier.log",.regular⟩ =
    some ⟨"2026-13-45","applier",none,"log"⟩ := by decide
  have hdate : StampName.toDate "2026-13-45" =
    .error (StampName.mismatch "2026-13-45" "%Y-%m-%d") := by decide
  constructor
  · intro h
    obtain ⟨day,hday⟩ := ((sweepRoot_returns_iff rfl).mp (h rfl).returns).dated _
      List.mem_cons_self _ hname
    rw [hdate] at hday
    cases hday
  · have hmonth : 7 < Calendar.daysBeforeMonth 2026 6 + 4 := by decide
    have hordinal : june.ordinal = Calendar.daysBeforeYear 2026 +
      Calendar.daysBeforeMonth 2026 6 + 4 := by simp only [Instant.ordinal, june]
    rw [deleteExpiredFiles, if_neg (by dsimp only; omega), applierLogs, visitAll, visit, hname]
    dsimp only
    rw [hdate]

end NexusEtl
