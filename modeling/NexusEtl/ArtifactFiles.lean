import NexusEtl.Diagnostics
import NexusEtl.Library.RelyGuarantee
import NexusEtl.Value

/-!
# Artifact files

Plans and reports are written to a temporary file next to the final one, which then takes its
name in one step of the file system. Processes write and read at the same time and any call may
fail; a process that is killed makes no further step. Files are told apart from their names: a
reader that has opened a file goes on reading it when its name is taken by another one.
-/

set_option autoImplicit false

namespace NexusEtl.ArtifactFiles
open NexusEtl.Library

structure File (ι : Type) where
  text : List Char
  /-- The process that made the file. -/
  owner : Option ι
  /-- Whether that process has it open for writing. -/
  opened : Bool

inductive Entry
  | file (id : Nat)
  | link (path : String)
  deriving DecidableEq, Repr

structure Disk (ι : Type) where
  entry : String → Option Entry
  file : Nat → File ι
  next : Nat

namespace Disk

variable {ι : Type}

def bind (disk : Disk ι) (path : String) (entry : Option Entry) : Disk ι :=
  { disk with entry := Function.update disk.entry path entry }

def setFile (disk : Disk ι) (id : Nat) (file : File ι) : Disk ι :=
  { disk with file := Function.update disk.file id file }

/-- The file that a path leads to, through at most one link. -/
def resolve (disk : Disk ι) (path : String) : Option Nat :=
  match disk.entry path with
  | some (.file id) => some id
  | some (.link target) => match disk.entry target with
    | some (.file id) => some id
    | _ => none
  | none => none

end Disk

/-! ## Calls -/

def missing (path : String) : PyException :=
  ⟨"FileNotFoundError","[Errno 2] No such file or directory: " ++ Value.strRepr path⟩

def noUsableName : PyException :=
  ⟨"FileExistsError","[Errno 17] No usable temporary file name found"⟩

/-- A failed write may have written the beginning of its piece. -/
structure Fault where
  written : Nat
  error : PyException
  deriving DecidableEq, Repr

section Calls

variable {ι : Type}

abbrev Call (ι A : Type) := Disk ι → Except PyException A × Disk ι

/-- A new file for the process, unless the name is taken. -/
def createNew (me : ι) (name : String) : Call ι (Option Nat) := fun disk =>
  match disk.entry name with
  | some _ => (.ok none,disk)
  | none => (.ok (some disk.next),
      { (disk.bind name (some (.file disk.next))).setFile disk.next ⟨[],some me,true⟩ with
        next := disk.next + 1 })

def append (id : Nat) (piece : List Char) (fault : Option Fault) : Call ι Unit := fun disk =>
  let file := disk.file id
  match fault with
  | none => (.ok (),disk.setFile id { file with text := file.text ++ piece })
  | some f =>
    (.error f.error,disk.setFile id { file with text := file.text ++ piece.take f.written })

def failing (fault : Option PyException) : Except PyException Unit :=
  match fault with
  | none => .ok ()
  | some exc => .error exc

/-- A handle is closed also where closing it fails. -/
def close (id : Nat) (fault : Option PyException) : Call ι Unit := fun disk =>
  (failing fault,disk.setFile id { disk.file id with opened := false })

/-- `os.replace` -/
def replace (source target : String) (fault : Option PyException) : Call ι Unit := fun disk =>
  match fault with
  | some exc => (.error exc,disk)
  | none => match disk.entry source with
    | none => (.error (missing source),disk)
    | some entry => (.ok (),(disk.bind source none).bind target (some entry))

def exists? (path : String) : Call ι Bool := fun disk => (.ok (disk.entry path).isSome,disk)

def unlink (path : String) (fault : Option PyException) : Call ι Unit := fun disk =>
  match fault with
  | some exc => (.error exc,disk)
  | none => match disk.entry path with
    | none => (.error (missing path),disk)
    | some _ => (.ok (),disk.bind path none)

def openFile (path : String) : Call ι Nat := fun disk =>
  match disk.resolve path with
  | some id => (.ok id,disk)
  | none => (.error (missing path),disk)

end Calls

/-! ## Writing -/

/-- A call of `atomic_write_json` with what the system makes of it: the random names that are
tried, the pieces in which the text is written, and the calls that fail. -/
structure ArtifactWrite where
  directory : String
  stem : String
  randoms : List String
  pieces : List (List Char × Option Fault)
  mkdirFault : Option PyException
  syncFault : Option PyException
  closeFault : Option PyException
  replaceFault : Option PyException
  unlinkFault : Option PyException
  deriving DecidableEq, Repr

namespace ArtifactWrite

def target (w : ArtifactWrite) : String := w.directory ++ "/" ++ w.stem ++ ".json"

def tempName (w : ArtifactWrite) (random : String) : String :=
  w.directory ++ "/." ++ w.stem ++ "." ++ random ++ ".tmp"

def temps (w : ArtifactWrite) : List String := w.randoms.map w.tempName

def text (w : ArtifactWrite) : List Char := w.pieces.flatMap Prod.fst

end ArtifactWrite

section Programs

variable {ι : Type}

abbrev Process (ι A : Type) := Prog (Disk ι) PyException A

/-- `NamedTemporaryFile`: the first name that is not taken. -/
def openTemp (me : ι) : List String → Process ι (String × Nat)
  | [] => throw noUsableName
  | name::names => do
    let made ← Prog.atomic (createNew me name)
    match made with
    | some id => pure (name,id)
    | none => openTemp me names

def writePieces (id : Nat) : List (List Char × Option Fault) → Process ι Unit
  | [] => pure ()
  | (piece,fault)::rest => do
    Prog.atomic (append id piece fault)
    writePieces id rest

/-- The `with` block, and its handle closed on both ways out. -/
def writeTemp (id : Nat) (w : ArtifactWrite) : Process ι Unit := do
  tryCatch
    (do
      writePieces id w.pieces
      Prog.ofExcept (failing w.syncFault))
    (fun exc => do
      Prog.atomic (close id w.closeFault)
      throw exc)
  Prog.atomic (close id w.closeFault)

def discard (temp : String) (w : ArtifactWrite) (exc : PyException) : Process ι Unit := do
  let there ← Prog.atomic (exists? temp)
  if there then Prog.atomic (unlink temp w.unlinkFault) else pure ()
  throw exc

/-- `atomic_write_json` -/
def atomicWriteJson (me : ι) (w : ArtifactWrite) : Process ι Unit := do
  Prog.ofExcept (failing w.mkdirFault)
  let made ← openTemp me w.temps
  tryCatch
    (do
      writeTemp made.2 w
      Prog.atomic (replace made.1 w.target w.replaceFault))
    (discard made.1 w)

/-- The rest of an open file, in pieces of these sizes and then to its end. -/
def readRest (id : Nat) : List Nat → List Char → Process ι (List Char)
  | [], acc => do
    let piece ← Prog.atomic fun disk => (.ok ((disk.file id).text.drop acc.length),disk)
    pure (acc ++ piece)
  | size::sizes, acc => do
    let piece ← Prog.atomic fun disk =>
      (.ok (((disk.file id).text.drop acc.length).take size),disk)
    readRest id sizes (acc ++ piece)

/-- `Path.read_text` -/
def readText (path : String) (sizes : List Nat) : Process ι (List Char) := do
  let id ← Prog.atomic (openFile path)
  readRest id sizes []

inductive Job
  | write (w : ArtifactWrite)
  | read (path : String) (sizes : List Nat)

/-- What a process does; a reader ends with the text. -/
def program (me : ι) : Job → Process ι (Option (List Char))
  | .write w => do
    atomicWriteJson me w
    pure none
  | .read path sizes => do
    let text ← readText path sizes
    pure (some text)

end Programs

/-! ## What holds at every step -/

section Relations

variable {ι : Type} (jobs : ι → Job) (start : Disk ι)

/-- A name that a writer may give to its temporary file. -/
def IsTemp (path : String) : Prop := ∃ i w, jobs i = .write w ∧ path ∈ w.temps

/-- The complete texts of a path: the one at the start and those that are written to it. -/
def Version (path : String) (text : List Char) : Prop :=
  (∃ id, start.entry path = some (.file id) ∧ (start.file id).text = text) ∨
    ∃ i w, jobs i = .write w ∧ w.target = path ∧ w.text = text

structure Sound (s : Disk ι) : Prop where
  bound : ∀ p id, s.entry p = some (.file id) → id < s.next
  complete : ∀ p id, ¬IsTemp jobs p → s.entry p = some (.file id) →
    (s.file id).opened = false ∧ Version jobs start p (s.file id).text
  kept : ∀ p, ¬IsTemp jobs p → (start.entry p).isSome = true → (s.entry p).isSome = true
  links : ∀ p q, s.entry p = some (.link q) → start.entry p = some (.link q)

/-- What a step of the process may do. -/
structure Move (i : ι) (s t : Disk ι) : Prop where
  next_le : s.next ≤ t.next
  owners : ∀ id < s.next, (t.file id).owner = (s.file id).owner
  closed : ∀ id < s.next, (s.file id).opened = false → t.file id = s.file id
  others : ∀ id < s.next, (s.file id).owner ≠ some i → t.file id = s.file id
  fresh : ∀ id, s.next ≤ id → id < t.next → (t.file id).owner = some i
  binds : ∀ p id, t.entry p = some (.file id) →
    s.entry p = some (.file id) ∨ (t.file id).owner = some i
  temps : ∀ p id, IsTemp jobs p → s.entry p = some (.file id) → (s.file id).owner ≠ some i →
    t.entry p = some (.file id)

/-- What the process relies on between its steps. -/
structure Rely (i : ι) (s t : Disk ι) : Prop where
  next_le : s.next ≤ t.next
  owners : ∀ id < s.next, (t.file id).owner = (s.file id).owner
  closed : ∀ id < s.next, (s.file id).opened = false → t.file id = s.file id
  own : ∀ id < s.next, (s.file id).owner = some i → t.file id = s.file id
  fresh : ∀ id, s.next ≤ id → id < t.next → (t.file id).owner ≠ some i
  binds : ∀ p id, id < s.next → (s.file id).owner = some i → t.entry p = some (.file id) →
    s.entry p = some (.file id)
  temps : ∀ p id, IsTemp jobs p → id < s.next → (s.file id).owner = some i →
    s.entry p = some (.file id) → t.entry p = some (.file id)

theorem Rely.refl (i : ι) (s : Disk ι) : Rely jobs i s s :=
  ⟨Nat.le_refl _,fun _ _ => rfl,fun _ _ _ => rfl,fun _ _ _ => rfl,
    fun _ hge hlt => absurd hlt (Nat.not_lt.mpr hge),fun _ _ _ _ h => h,fun _ _ _ _ _ h => h⟩

variable {jobs start}

theorem Rely.trans {i : ι} {s t u : Disk ι} (h : Rely jobs i s t) (h' : Rely jobs i t u) :
    Rely jobs i s u := by
  have hlt : ∀ id < s.next, id < t.next := fun id hid => Nat.lt_of_lt_of_le hid h.next_le
  refine ⟨Nat.le_trans h.next_le h'.next_le,?_,?_,?_,?_,?_,?_⟩
  · intro id hid
    rw [h'.owners id (hlt id hid), h.owners id hid]
  · intro id hid hclosed
    have hfile := h.closed id hid hclosed
    rw [h'.closed id (hlt id hid) (by rw [hfile]; exact hclosed), hfile]
  · intro id hid howner
    have hfile := h.own id hid howner
    rw [h'.own id (hlt id hid) (by rw [hfile]; exact howner), hfile]
  · intro id hge hlt'
    by_cases hid : id < t.next
    · rw [h'.owners id hid]
      exact h.fresh id hge hid
    · exact h'.fresh id (Nat.not_lt.mp hid) hlt'
  · intro p id hid howner hentry
    have hown : (t.file id).owner = some i := by rw [h.owners id hid, howner]
    exact h.binds p id hid howner (h'.binds p id (hlt id hid) hown hentry)
  · intro p id htemp hid howner hentry
    have hown : (t.file id).owner = some i := by rw [h.owners id hid, howner]
    exact h'.temps p id htemp (hlt id hid) hown (h.temps p id htemp hid howner hentry)

theorem Move.refl (i : ι) (s : Disk ι) : Move jobs i s s :=
  ⟨Nat.le_refl _,fun _ _ => rfl,fun _ _ _ => rfl,fun _ _ _ => rfl,
    fun _ hge hlt => absurd hlt (Nat.not_lt.mpr hge),fun _ _ h => .inl h,fun _ _ _ h _ => h⟩

/-- A step of one process is among what every other one relies on. -/
theorem Move.rely {i j : ι} (hij : i ≠ j) {s t : Disk ι} (h : Move jobs i s t) :
    Rely jobs j s t := by
  have hne : ∀ {o : Option ι}, o = some j → o ≠ some i := by
    rintro o rfl heq
    exact hij (Option.some.inj heq).symm
  refine ⟨h.next_le,h.owners,h.closed,?_,?_,?_,?_⟩
  · exact fun id hid howner => h.others id hid (hne howner)
  · intro id hge hlt howner
    exact hne howner (h.fresh id hge hlt)
  · intro p id hid howner hentry
    rcases h.binds p id hentry with hsame | hmine
    · exact hsame
    · rw [h.owners id hid] at hmine
      exact absurd hmine (hne howner)
  · exact fun p id htemp _ howner hentry => h.temps p id htemp hentry (hne howner)

theorem compatible : Prog.Compatible (Sound jobs start) (Rely jobs) (Move jobs) :=
  ⟨Rely.refl jobs,fun _ _ _ _ => Rely.trans,fun _ _ _ _ hij _ _ => Move.rely hij⟩

end Relations

/-! ## The file of a writer -/

section Writers

variable {ι : Type} {jobs : ι → Job} {start : Disk ι} {i : ι}

def Unmade (i : ι) (s : Disk ι) : Prop := ∀ id < s.next, (s.file id).owner ≠ some i

/-- The process has made one file, which has this text and the temporary name only. -/
structure Made (i : ι) (temp : String) (id : Nat) (text : List Char) (opened : Bool)
    (s : Disk ι) : Prop where
  lt : id < s.next
  file : s.file id = ⟨text,some i,opened⟩
  named : s.entry temp = some (.file id)
  only : ∀ p, s.entry p = some (.file id) → p = temp
  sole : ∀ id' < s.next, (s.file id').owner = some i → id' = id

/-- No path leads to a file of the process. -/
def Cleared (i : ι) (s : Disk ι) : Prop :=
  ∀ p id, s.entry p = some (.file id) → id < s.next → (s.file id).owner ≠ some i

/-- The process has made one file, which is complete and has no other name than the final one. -/
structure Published (i : ι) (w : ArtifactWrite) (s : Disk ι) : Prop where
  complete : ∃ id < s.next, s.file id = ⟨w.text,some i,false⟩
  only : ∀ p id, s.entry p = some (.file id) → id < s.next → (s.file id).owner = some i →
    p = w.target

theorem owner_unmoved {s t : Disk ι} (hR : Rely jobs i s t) {id : Nat} (hid : id < t.next)
    (howner : (t.file id).owner = some i) : id < s.next ∧ (s.file id).owner = some i := by
  by_cases hlt : id < s.next
  · rw [hR.owners id hlt] at howner
    exact ⟨hlt,howner⟩
  · exact absurd howner (hR.fresh id (Nat.not_lt.mp hlt) hid)

theorem Unmade.later {s t : Disk ι} (h : Unmade i s) (hR : Rely jobs i s t) : Unmade i t := by
  intro id hid howner
  obtain ⟨hlt,hown⟩ := owner_unmoved hR hid howner
  exact h id hlt hown

theorem Made.later {temp : String} {id : Nat} {text : List Char} {opened : Bool} {s t : Disk ι}
    (h : Made i temp id text opened s) (htemp : IsTemp jobs temp) (hR : Rely jobs i s t) :
    Made i temp id text opened t := by
  have howner : (s.file id).owner = some i := by rw [h.file]
  refine ⟨Nat.lt_of_lt_of_le h.lt hR.next_le,?_,?_,?_,?_⟩
  · rw [hR.own id h.lt howner, h.file]
  · exact hR.temps temp id htemp h.lt howner h.named
  · exact fun p hp => h.only p (hR.binds p id h.lt howner hp)
  · intro id' hid' hown'
    obtain ⟨hlt,hown⟩ := owner_unmoved hR hid' hown'
    exact h.sole id' hlt hown

theorem Cleared.later {s t : Disk ι} (h : Cleared i s) (hR : Rely jobs i s t) : Cleared i t := by
  intro p id hentry hid howner
  obtain ⟨hlt,hown⟩ := owner_unmoved hR hid howner
  exact h p id (hR.binds p id hlt hown hentry) hlt hown

theorem Published.later {w : ArtifactWrite} {s t : Disk ι} (h : Published i w s)
    (hR : Rely jobs i s t) : Published i w t := by
  obtain ⟨id,hlt,hfile⟩ := h.complete
  refine ⟨⟨id,Nat.lt_of_lt_of_le hlt hR.next_le,?_⟩,?_⟩
  · rw [hR.own id hlt (by rw [hfile]), hfile]
  · intro p id' hentry hid' howner
    obtain ⟨hlt',hown⟩ := owner_unmoved hR hid' howner
    exact h.only p id' (hR.binds p id' hlt' hown hentry) hlt' hown

theorem Unmade.cleared {s : Disk ι} (h : Unmade i s) : Cleared i s := fun _ id _ hid => h id hid

/-! ### What its steps do -/

theorem createNew_made {s : Disk ι} (hI : Sound jobs start s) (h : Unmade i s) {name : String}
    (htemp : IsTemp jobs name) (hfree : s.entry name = none) :
    let t := (createNew i name s).2
    Sound jobs start t ∧ Move jobs i s t ∧ Made i name s.next [] true t := by
  intro t
  have hname : t.entry name = some (.file s.next) := by
    simp [t, createNew, hfree, Disk.bind, Disk.setFile]
  have hentry {p : String} (hp : p ≠ name) : t.entry p = s.entry p := by
    simp [t, createNew, hfree, Disk.bind, Disk.setFile, Function.update_of_ne hp]
  have hnew : t.file s.next = ⟨[],some i,true⟩ := by
    simp [t, createNew, hfree, Disk.bind, Disk.setFile]
  have hold {id : Nat} (hid : id < s.next) : t.file id = s.file id := by
    simp [t, createNew, hfree, Disk.bind, Disk.setFile, Function.update_of_ne (Nat.ne_of_lt hid)]
  have hnext : t.next = s.next + 1 := by
    simp [t, createNew, hfree, Disk.bind, Disk.setFile]
  clear_value t
  refine ⟨⟨?_,?_,?_,?_⟩,⟨by omega,?_,?_,?_,?_,?_,?_⟩,⟨by omega,hnew,hname,?_,?_⟩⟩
  · intro p id hp
    by_cases hpn : p = name
    · rw [hpn, hname] at hp
      rw [← Entry.file.inj (Option.some.inj hp)]
      omega
    · rw [hentry hpn] at hp
      have hlt := hI.bound p id hp
      omega
  · intro p id hnot hp
    have hpn : p ≠ name := fun heq => hnot (heq ▸ htemp)
    rw [hentry hpn] at hp
    rw [hold (hI.bound p id hp)]
    exact hI.complete p id hnot hp
  · intro p hnot hp
    have hpn : p ≠ name := fun heq => hnot (heq ▸ htemp)
    rw [hentry hpn]
    exact hI.kept p hnot hp
  · intro p q hp
    by_cases hpn : p = name
    · rw [hpn, hname] at hp
      cases Option.some.inj hp
    · rw [hentry hpn] at hp
      exact hI.links p q hp
  · intro id hid
    rw [hold hid]
  · intro id hid _
    exact hold hid
  · intro id hid _
    exact hold hid
  · intro id hge hlt
    rw [show id = s.next by omega, hnew]
  · intro p id hp
    by_cases hpn : p = name
    · rw [hpn, hname] at hp
      rw [← Entry.file.inj (Option.some.inj hp), hnew]
      exact .inr rfl
    · rw [hentry hpn] at hp
      exact .inl hp
  · intro p id _ hp _
    have hpn : p ≠ name := by
      rintro rfl
      rw [hfree] at hp
      cases hp
    rw [hentry hpn, hp]
  · intro p hp
    by_cases hpn : p = name
    · exact hpn
    · rw [hentry hpn] at hp
      exact absurd (hI.bound p _ hp) (Nat.lt_irrefl _)
  · intro id hid howner
    by_cases hlt : id < s.next
    · rw [hold hlt] at howner
      exact absurd howner (h id hlt)
    · omega

section Owned

variable {temp : String} {id : Nat} {text : List Char} {s : Disk ι}

theorem setFile_made (opened : Bool) (hI : Sound jobs start s) (htemp : IsTemp jobs temp)
    (h : Made i temp id text true s) (text' : List Char) :
    let t := s.setFile id ⟨text',some i,opened⟩
    Sound jobs start t ∧ Move jobs i s t ∧ Made i temp id text' opened t := by
  intro t
  have hself : t.file id = ⟨text',some i,opened⟩ := Function.update_self _ _ _
  have hold {id' : Nat} (hid : id' ≠ id) : t.file id' = s.file id' :=
    Function.update_of_ne hid _ _
  have howner (id' : Nat) : (t.file id').owner = (s.file id').owner := by
    by_cases hid : id' = id
    · rw [hid, hself, h.file]
    · rw [hold hid]
  refine ⟨⟨hI.bound,?_,hI.kept,hI.links⟩,⟨Nat.le_refl _,fun id' _ => howner id',?_,?_,?_,
    fun p id' hp => .inl hp,fun p id' _ hp _ => hp⟩,⟨h.lt,hself,h.named,h.only,?_⟩⟩
  · intro p id' hnot hp
    have hid : id' ≠ id := by
      rintro rfl
      exact hnot (h.only p hp ▸ htemp)
    rw [hold hid]
    exact hI.complete p id' hnot hp
  · intro id' _ hclosed
    apply hold
    rintro rfl
    rw [h.file] at hclosed
    cases hclosed
  · intro id' _ hother
    apply hold
    rintro rfl
    rw [h.file] at hother
    exact hother rfl
  · exact fun id' hge hlt => absurd hlt (Nat.not_lt.mpr hge)
  · intro id' hid hown
    rw [howner] at hown
    exact h.sole id' hid hown

/-- Without its temporary name the file has none. -/
theorem bind_made {opened : Bool} (hI : Sound jobs start s) (htemp : IsTemp jobs temp)
    (h : Made i temp id text opened s) :
    let t := s.bind temp none
    Sound jobs start t ∧ Move jobs i s t ∧ Cleared i t := by
  intro t
  have hentry {p : String} (hp : p ≠ temp) : t.entry p = s.entry p :=
    Function.update_of_ne hp _ _
  have hfile {p : String} {e : Entry} (hp : t.entry p = some e) :
      p ≠ temp ∧ s.entry p = some e := by
    by_cases hpt : p = temp
    · rw [hpt, show t.entry temp = none from Function.update_self _ _ _] at hp
      cases hp
    · rw [hentry hpt] at hp
      exact ⟨hpt,hp⟩
  refine ⟨⟨?_,?_,?_,?_⟩,⟨Nat.le_refl _,fun _ _ => rfl,fun _ _ _ => rfl,fun _ _ _ => rfl,
    fun _ hge hlt => absurd hlt (Nat.not_lt.mpr hge),?_,?_⟩,?_⟩
  · exact fun p id' hp => hI.bound p id' (hfile hp).2
  · exact fun p id' hnot hp => hI.complete p id' hnot (hfile hp).2
  · intro p hnot hp
    have hpt : p ≠ temp := fun heq => hnot (heq ▸ htemp)
    rw [hentry hpt]
    exact hI.kept p hnot hp
  · exact fun p q hp => hI.links p q (hfile hp).2
  · exact fun p id' hp => .inl (hfile hp).2
  · intro p id' _ hp hother
    have hpt : p ≠ temp := by
      rintro rfl
      rw [h.named] at hp
      rw [← Entry.file.inj (Option.some.inj hp), h.file] at hother
      exact hother rfl
    rw [hentry hpt, hp]
  · intro p id' hp hid howner
    obtain ⟨hpt,hs⟩ := hfile hp
    rw [h.sole id' hid howner] at hs
    exact hpt (h.only p hs)

/-- The complete file takes the final name. -/
theorem replace_made {w : ArtifactWrite} (hI : Sound jobs start s) (hjob : jobs i = .write w)
    (htemp : IsTemp jobs temp) (htarget : ¬IsTemp jobs w.target)
    (h : Made i temp id w.text false s) :
    let t := (s.bind temp none).bind w.target (some (.file id))
    Sound jobs start t ∧ Move jobs i s t ∧ Published i w t := by
  have hne : w.target ≠ temp := fun heq => htarget (heq ▸ htemp)
  intro t
  have hbound : t.entry w.target = some (.file id) := Function.update_self _ _ _
  have hentry {p : String} (hp : p ≠ w.target) (hpt : p ≠ temp) : t.entry p = s.entry p := by
    simp [t, Disk.bind, Function.update_of_ne hp, Function.update_of_ne hpt]
  have hfile {p : String} {e : Entry} (hp : t.entry p = some e) :
      (p = w.target ∧ e = .file id) ∨ (p ≠ w.target ∧ p ≠ temp ∧ s.entry p = some e) := by
    by_cases hpw : p = w.target
    · rw [hpw, hbound] at hp
      exact .inl ⟨hpw,(Option.some.inj hp).symm⟩
    · by_cases hpt : p = temp
      · have hnone : t.entry temp = none := by
          simp [t, Disk.bind, Function.update_of_ne (Ne.symm hne)]
        rw [hpt, hnone] at hp
        cases hp
      · rw [hentry hpw hpt] at hp
        exact .inr ⟨hpw,hpt,hp⟩
  refine ⟨⟨?_,?_,?_,?_⟩,⟨Nat.le_refl _,fun _ _ => rfl,fun _ _ _ => rfl,fun _ _ _ => rfl,
    fun _ hge hlt => absurd hlt (Nat.not_lt.mpr hge),?_,?_⟩,⟨⟨id,h.lt,h.file⟩,?_⟩⟩
  · intro p id' hp
    rcases hfile hp with ⟨-,heq⟩ | ⟨-,-,hs⟩
    · rw [Entry.file.inj heq]
      exact h.lt
    · exact hI.bound p id' hs
  · intro p id' hnot hp
    rcases hfile hp with ⟨rfl,heq⟩ | ⟨-,-,hs⟩
    · rw [Entry.file.inj heq, show t.file id = _ from h.file]
      exact ⟨rfl,.inr ⟨i,w,hjob,rfl,rfl⟩⟩
    · exact hI.complete p id' hnot hs
  · intro p hnot hp
    by_cases hpw : p = w.target
    · rw [hpw, hbound]
      rfl
    · rw [hentry hpw fun heq => hnot (heq ▸ htemp)]
      exact hI.kept p hnot hp
  · intro p q hp
    rcases hfile hp with ⟨-,heq⟩ | ⟨-,-,hs⟩
    · cases heq
    · exact hI.links p q hs
  · intro p id' hp
    rcases hfile hp with ⟨-,heq⟩ | ⟨-,-,hs⟩
    · rw [Entry.file.inj heq, show t.file id = _ from h.file]
      exact .inr rfl
    · exact .inl hs
  · intro p id' htp hp hother
    have hpw : p ≠ w.target := fun heq => htarget (heq ▸ htp)
    have hpt : p ≠ temp := by
      rintro rfl
      rw [h.named] at hp
      rw [← Entry.file.inj (Option.some.inj hp), h.file] at hother
      exact hother rfl
    rw [hentry hpw hpt, hp]
  · intro p id' hp hid howner
    rcases hfile hp with ⟨heq,-⟩ | ⟨-,hpt,hs⟩
    · exact heq
    · rw [h.sole id' hid howner] at hs
      exact absurd (h.only p hs) hpt

end Owned

/-! ### What its program does -/

abbrev Ensures (jobs : ι → Job) (start : Disk ι) (i : ι) {A : Type}
    (Q : Except PyException A → Disk ι → Prop) (p : Process ι A) (s : Disk ι) : Prop :=
  Prog.Behaves (Sound jobs start) (Rely jobs i) (Move jobs i) Q p s

theorem openTemp_ensures {names : List String} (hnames : ∀ name ∈ names, IsTemp jobs name)
    {s : Disk ι} (h : Unmade i s) :
    Ensures jobs start i (fun r t => match r with
      | .ok made => IsTemp jobs made.1 ∧ Made i made.1 made.2 [] true t
      | .error _ => Unmade i t) (openTemp i names) s := by
  induction names generalizing s with
  | nil => exact Prog.Behaves.throw fun t hR _ => h.later hR
  | cons name names ih =>
    refine Prog.Behaves.bind (Rely.refl jobs i)
      (Q := fun r t => match r with
        | .ok (some id) => Made i name id [] true t
        | .ok none => Unmade i t
        | .error _ => Unmade i t) (Prog.Behaves.atomic fun t hR hI => ?_) ?_ fun _ _ _ hQ => hQ
    · have hun := h.later hR
      cases hentry : t.entry name with
      | some e =>
        have hcall : createNew i name t = (.ok none,t) := by rw [createNew, hentry]
        rw [hcall]
        exact ⟨hI,Move.refl i t,fun u hR' _ => hun.later hR'⟩
      | none =>
        obtain ⟨hsound,hmove,hmade⟩ := createNew_made hI hun (hnames name List.mem_cons_self) hentry
        refine ⟨hsound,hmove,fun u hR' _ => ?_⟩
        have hcall : (createNew i name t).1 = .ok (some t.next) := by rw [createNew, hentry]
        rw [hcall]
        exact hmade.later (hnames name List.mem_cons_self) hR'
    · intro made t _ hQ
      cases made with
      | some id =>
        exact Prog.Behaves.pure fun u hR _ => ⟨hnames name List.mem_cons_self,
          hQ.later (hnames name List.mem_cons_self) hR⟩
      | none => exact ih (fun n hn => hnames n (List.mem_cons_of_mem name hn)) hQ

section Owned

variable {temp : String} {id : Nat} {text : List Char} {s : Disk ι}

/-- The file with some text, while it is open or after it has been closed. -/
def Partial (i : ι) (temp : String) (id : Nat) (opened : Bool) (s : Disk ι) : Prop :=
  ∃ text, Made i temp id text opened s

theorem append_ensures (htemp : IsTemp jobs temp) (h : Made i temp id text true s)
    (piece : List Char) (fault : Option Fault) :
    Ensures jobs start i (fun r t => match r with
      | .ok _ => Made i temp id (text ++ piece) true t
      | .error _ => Partial i temp id true t) (Prog.atomic (append id piece fault)) s := by
  refine Prog.Behaves.atomic fun t hR hI => ?_
  have hmade := h.later htemp hR
  cases fault with
  | none =>
    have hcall : append id piece none t =
        (.ok (),t.setFile id ⟨text ++ piece,some i,true⟩) := by
      rw [append, hmade.file]
    obtain ⟨hsound,hmove,hnext⟩ := setFile_made true hI htemp hmade (text ++ piece)
    rw [hcall]
    exact ⟨hsound,hmove,fun u hR' _ => hnext.later htemp hR'⟩
  | some f =>
    have hcall : append id piece (some f) t =
        (.error f.error,t.setFile id ⟨text ++ piece.take f.written,some i,true⟩) := by
      rw [append, hmade.file]
    obtain ⟨hsound,hmove,hnext⟩ := setFile_made true hI htemp hmade
      (text ++ piece.take f.written)
    rw [hcall]
    exact ⟨hsound,hmove,fun u hR' _ => ⟨_,hnext.later htemp hR'⟩⟩

theorem writePieces_ensures (htemp : IsTemp jobs temp) (h : Made i temp id text true s)
    (pieces : List (List Char × Option Fault)) :
    Ensures jobs start i (fun r t => match r with
      | .ok _ => Made i temp id (text ++ pieces.flatMap Prod.fst) true t
      | .error _ => Partial i temp id true t) (writePieces id pieces) s := by
  induction pieces generalizing s text with
  | nil =>
    refine Prog.Behaves.pure fun t hR _ => ?_
    rw [List.flatMap_nil, List.append_nil]
    exact h.later htemp hR
  | cons p pieces ih =>
    obtain ⟨piece,fault⟩ := p
    refine Prog.Behaves.bind (Rely.refl jobs i) (append_ensures htemp h piece fault) ?_
      fun _ _ _ hQ => hQ
    intro _ t _ hmade
    have hrest := ih hmade
    rw [List.append_assoc] at hrest
    exact hrest

theorem close_ensures (htemp : IsTemp jobs temp) (h : Made i temp id text true s)
    (fault : Option PyException) :
    Ensures jobs start i (fun _ t => Made i temp id text false t)
      (Prog.atomic (close id fault)) s := by
  refine Prog.Behaves.atomic fun t hR hI => ?_
  have hmade := h.later htemp hR
  have hcall : (close id fault t).2 = t.setFile id ⟨text,some i,false⟩ := by
    rw [close, hmade.file]
  obtain ⟨hsound,hmove,hnext⟩ := setFile_made false hI htemp hmade text
  rw [hcall]
  exact ⟨hsound,hmove,fun u hR' _ => hnext.later htemp hR'⟩

theorem writeTemp_ensures (htemp : IsTemp jobs temp) (h : Made i temp id [] true s)
    (w : ArtifactWrite) :
    Ensures jobs start i (fun r t => match r with
      | .ok _ => Made i temp id w.text false t
      | .error _ => Partial i temp id false t) (writeTemp id w) s := by
  refine Prog.Behaves.bind (Rely.refl jobs i)
    (Q := fun r t => match r with
      | .ok _ => Made i temp id w.text true t
      | .error _ => Partial i temp id false t) ?_ ?_ fun _ _ _ hQ => hQ
  · refine Prog.Behaves.tryCatch (Rely.refl jobs i)
      (Q := fun r t => match r with
        | .ok _ => Made i temp id w.text true t
        | .error _ => Partial i temp id true t) ?_ (fun _ _ _ hQ => hQ) ?_
    · refine Prog.Behaves.bind (Rely.refl jobs i) (writePieces_ensures htemp h w.pieces) ?_
        fun _ _ _ hQ => hQ
      intro _ t _ hmade
      cases w.syncFault with
      | none => exact fun u hR _ => hmade.later htemp hR
      | some exc => exact fun u hR _ => ⟨_,hmade.later htemp hR⟩
    · rintro exc t _ ⟨text,hmade⟩
      refine Prog.Behaves.bind (Rely.refl jobs i) (close_ensures htemp hmade w.closeFault) ?_
        fun _ _ _ hQ => ⟨_,hQ⟩
      exact fun _ t _ hclosed => Prog.Behaves.throw fun u hR _ => ⟨_,hclosed.later htemp hR⟩
  · intro _ t _ hmade
    refine (close_ensures htemp hmade w.closeFault).weaken fun r u _ hclosed => ?_
    cases r with
    | ok _ => exact hclosed
    | error _ => exact ⟨_,hclosed⟩

theorem discard_ensures {opened : Bool} (htemp : IsTemp jobs temp)
    (h : Partial i temp id opened s) (w : ArtifactWrite) (exc : PyException) :
    Ensures jobs start i (fun r t => match r with
      | .ok _ => False
      | .error _ => w.unlinkFault = none → Cleared i t) (discard temp w exc) s := by
  obtain ⟨text,h⟩ := h
  refine Prog.Behaves.bind (Rely.refl jobs i)
    (Q := fun r t => Made i temp id text opened t ∧ r = .ok true)
    (Prog.Behaves.atomic fun t hR hI => ?_) ?_ fun _ _ _ hQ => by cases hQ.2
  · have hmade := h.later htemp hR
    refine ⟨hI,Move.refl i t,fun u hR' _ => ⟨hmade.later htemp hR',?_⟩⟩
    rw [exists?, hmade.named]
    rfl
  · rintro there t _ ⟨hmade,heq⟩
    rw [Except.ok.inj heq]
    refine Prog.Behaves.bind (Rely.refl jobs i)
      (Q := fun _ t => w.unlinkFault = none → Cleared i t)
      (Prog.Behaves.atomic fun u hR hI => ?_) ?_ fun _ _ _ hQ => hQ
    · have hmade' := hmade.later htemp hR
      cases hfault : w.unlinkFault with
      | some exc => exact ⟨hI,Move.refl i u,fun _ _ _ h => by cases h⟩
      | none =>
        obtain ⟨hsound,hmove,hcleared⟩ := bind_made hI htemp hmade'
        have hcall : unlink temp none u = (.ok (),u.bind temp none) := by
          rw [unlink, hmade'.named]
        rw [hcall]
        exact ⟨hsound,hmove,fun v hR' _ _ => hcleared.later hR'⟩
    · exact fun _ u _ hQ => Prog.Behaves.throw fun v hR _ hfault => (hQ hfault).later hR

end Owned

/-- A writer publishes its text, or fails and leaves nothing that can be found. -/
theorem atomicWriteJson_ensures {w : ArtifactWrite} (hjob : jobs i = .write w)
    (htarget : ¬IsTemp jobs w.target) {s : Disk ι} (h : Unmade i s) :
    Ensures jobs start i (fun r t => match r with
      | .ok _ => Published i w t
      | .error _ => w.unlinkFault = none → Cleared i t) (atomicWriteJson i w) s := by
  refine Prog.Behaves.bind (Rely.refl jobs i) (Q := fun _ t => Unmade i t)
    (fun t hR _ => h.later hR) ?_ fun _ _ _ hQ _ => hQ.cleared
  intro _ s _ h
  refine Prog.Behaves.bind (Rely.refl jobs i)
    (openTemp_ensures (fun name hname => ⟨i,w,hjob,hname⟩) h) ?_ fun _ _ _ hQ _ => hQ.cleared
  rintro ⟨temp,id⟩ t _ ⟨htemp,hmade⟩
  refine Prog.Behaves.tryCatch (Rely.refl jobs i)
    (Q := fun r t => match r with
      | .ok _ => Published i w t
      | .error _ => Partial i temp id false t) ?_ (fun _ _ _ hQ => hQ) ?_
  · refine Prog.Behaves.bind (Rely.refl jobs i) (writeTemp_ensures htemp hmade w) ?_
      fun _ _ _ hQ => hQ
    intro _ u _ hclosed
    refine Prog.Behaves.atomic fun v hR hI => ?_
    have hthere := hclosed.later htemp hR
    cases hfault : w.replaceFault with
    | some exc => exact ⟨hI,Move.refl i v,fun x hR' _ => ⟨_,hthere.later htemp hR'⟩⟩
    | none =>
      obtain ⟨hsound,hmove,hpublished⟩ := replace_made hI hjob htemp htarget hthere
      have hcall : replace temp w.target none v =
          (.ok (),(v.bind temp none).bind w.target (some (.file id))) := by
        rw [replace, hthere.named]
      rw [hcall]
      exact ⟨hsound,hmove,fun x hR' _ => hpublished.later hR'⟩
  · intro exc u _ hpartial
    refine (discard_ensures htemp hpartial w exc).weaken fun r v _ hQ => ?_
    cases r with
    | ok _ => exact hQ.elim
    | error _ => exact hQ

end Writers

/-! ## Readers -/

section Readers

variable {ι : Type} (jobs : ι → Job) (start : Disk ι)

/-- The texts that reading a path may give: those of the path, or of the one it is a link to. -/
def Readable (path : String) (text : List Char) : Prop :=
  Version jobs start path text ∨
    ∃ target, start.entry path = some (.link target) ∧ Version jobs start target text

/-- The file that a reader has open does not change any more. -/
def Reading (path : String) (id : Nat) (acc : List Char) (s : Disk ι) : Prop :=
  ¬IsTemp jobs path → ∃ text, Readable jobs start path text ∧ id < s.next ∧
    (s.file id).opened = false ∧ (s.file id).text = text ∧ acc = text.take acc.length

variable {jobs start} {i : ι} {path : String}

theorem Reading.later {id : Nat} {acc : List Char} {s t : Disk ι}
    (h : Reading jobs start path id acc s) (hR : Rely jobs i s t) :
    Reading jobs start path id acc t := by
  intro hpath
  obtain ⟨text,hreadable,hlt,hclosed,htext,hacc⟩ := h hpath
  have hfile := hR.closed id hlt hclosed
  exact ⟨text,hreadable,Nat.lt_of_lt_of_le hlt hR.next_le,by rw [hfile]; exact hclosed,
    by rw [hfile]; exact htext,hacc⟩

theorem open_reading {s : Disk ι} (hI : Sound jobs start s)
    (hlinks : ∀ p q, start.entry p = some (.link q) → ¬IsTemp jobs q) {id : Nat}
    (h : s.resolve path = some id) : Reading jobs start path id [] s := by
  intro hpath
  unfold Disk.resolve at h
  split at h
  · rename_i id' hentry
    obtain rfl := Option.some.inj h
    obtain ⟨hclosed,hversion⟩ := hI.complete path id' hpath hentry
    exact ⟨_,.inl hversion,hI.bound path id' hentry,hclosed,rfl,rfl⟩
  · rename_i target hentry
    split at h
    · rename_i id' htarget
      obtain rfl := Option.some.inj h
      have hlink := hI.links path target hentry
      obtain ⟨hclosed,hversion⟩ := hI.complete target id' (hlinks path target hlink) htarget
      exact ⟨_,.inr ⟨target,hlink,hversion⟩,hI.bound target id' htarget,hclosed,rfl,rfl⟩
    · cases h
  · cases h

/-- A path that led to a file at the start does so at every later time. -/
theorem resolve_none {s : Disk ι} (hI : Sound jobs start s)
    (hlinks : ∀ p q, start.entry p = some (.link q) → ¬IsTemp jobs q) (hpath : ¬IsTemp jobs path)
    (h : s.resolve path = none) : start.resolve path = none := by
  have hgone {p : String} (hp : ¬IsTemp jobs p) (hnone : s.entry p = none) :
      start.entry p = none := by
    cases hentry : start.entry p with
    | none => rfl
    | some e =>
      have hkept := hI.kept p hp (by rw [hentry]; rfl)
      rw [hnone] at hkept
      cases hkept
  unfold Disk.resolve at h
  split at h
  · cases h
  · rename_i target hentry
    have hlink := hI.links path target hentry
    rw [Disk.resolve, hlink]
    split at h
    · cases h
    · rename_i hnot
      cases htarget : s.entry target with
      | none => simp only [hgone (hlinks path target hlink) htarget]
      | some e =>
        cases e with
        | file id => exact absurd htarget (hnot id)
        | link q => simp only [hI.links target q htarget]
  · rename_i hentry
    rw [Disk.resolve, hgone hpath hentry]

theorem readRest_ensures {id : Nat} (sizes : List Nat) {acc : List Char} {s : Disk ι}
    (h : Reading jobs start path id acc s) :
    Ensures jobs start i (fun r _ => match r with
      | .ok text => ¬IsTemp jobs path → Readable jobs start path text
      | .error _ => False) (readRest id sizes acc) s := by
  induction sizes generalizing s acc with
  | nil =>
    refine Prog.Behaves.bind (Rely.refl jobs i)
      (Q := fun r _ => match r with
        | .ok piece => ¬IsTemp jobs path → Readable jobs start path (acc ++ piece)
        | .error _ => False)
      (Prog.Behaves.atomic fun t hR hI => ⟨hI,Move.refl i t,fun _ _ _ hpath => ?_⟩)
      (fun _ _ _ hQ => Prog.Behaves.pure fun _ _ _ => hQ) fun _ _ _ hQ => hQ
    obtain ⟨text,hreadable,-,-,htext,hacc⟩ := h.later hR hpath
    rw [htext]
    have hwhole : acc ++ text.drop acc.length = text := by
      conv_lhs => lhs; rw [hacc]
      exact List.take_append_drop _ _
    rwa [hwhole]
  | cons size sizes ih =>
    refine Prog.Behaves.bind (Rely.refl jobs i)
      (Q := fun r t => match r with
        | .ok piece => Reading jobs start path id (acc ++ piece) t
        | .error _ => False)
      (Prog.Behaves.atomic fun t hR hI => ⟨hI,Move.refl i t,fun u hR' _ => ?_⟩)
      (fun _ _ _ hQ => ih hQ) fun _ _ _ hQ => hQ
    have hthere := h.later hR
    refine Reading.later (fun hpath => ?_) hR'
    obtain ⟨text,hreadable,hlt,hclosed,htext,hacc⟩ := hthere hpath
    refine ⟨text,hreadable,hlt,hclosed,htext,?_⟩
    rw [htext]
    have hnext : acc ++ (text.drop acc.length).take size = text.take (acc.length + size) := by
      conv_lhs => lhs; rw [hacc]
      rw [List.take_add]
    rw [hnext, List.length_take]
    exact List.take_eq_take_min

theorem readText_ensures (hlinks : ∀ p q, start.entry p = some (.link q) → ¬IsTemp jobs q)
    (sizes : List Nat) (s : Disk ι) :
    Ensures jobs start i (fun r _ => ¬IsTemp jobs path → match r with
      | .ok text => Readable jobs start path text
      | .error _ => start.resolve path = none) (readText path sizes) s := by
  refine Prog.Behaves.bind (Rely.refl jobs i)
    (Q := fun r t => match r with
      | .ok id => Reading jobs start path id [] t
      | .error _ => ¬IsTemp jobs path → start.resolve path = none)
    (Prog.Behaves.atomic fun t hR hI => ?_) ?_ fun _ _ _ hQ => hQ
  · unfold openFile
    cases hresolve : t.resolve path with
    | some id => exact ⟨hI,Move.refl i t,fun u hR' _ => (open_reading hI hlinks hresolve).later hR'⟩
    | none => exact ⟨hI,Move.refl i t,fun _ _ _ hpath => resolve_none hI hlinks hpath hresolve⟩
  · intro id t _ hreading
    refine (readRest_ensures sizes hreading).weaken fun r _ _ hQ => ?_
    cases r with
    | ok text => exact hQ
    | error _ => exact hQ.elim

end Readers

/-! ## Processes side by side -/

section Runs

variable {ι : Type}

theorem last_tmp (w : ArtifactWrite) (random : String) :
    (w.tempName random).toList.getLast? = some 'p' := by
  rw [ArtifactWrite.tempName, String.toList_append, List.getLast?_append]
  rfl

theorem last_json (w : ArtifactWrite) : w.target.toList.getLast? = some 'n' := by
  rw [ArtifactWrite.target, String.toList_append, List.getLast?_append]
  rfl

/-- No final name is a temporary one. -/
theorem target_not_temp (jobs : ι → Job) (w : ArtifactWrite) : ¬IsTemp jobs w.target := by
  rintro ⟨i,w',-,hmem⟩
  obtain ⟨random,-,heq⟩ := List.mem_map.mp hmem
  have hlast := last_tmp w' random
  rw [heq, last_json] at hlast
  exact absurd (Option.some.inj hlast) (by decide)

/-- No process has made a file yet, and no link leads to a temporary name. -/
structure Idle (jobs : ι → Job) (start : Disk ι) : Prop where
  bound : ∀ p id, start.entry p = some (.file id) → id < start.next
  closed : ∀ id < start.next, (start.file id).opened = false
  unowned : ∀ id < start.next, (start.file id).owner = none
  links : ∀ p q, start.entry p = some (.link q) → ¬IsTemp jobs q

/-- What holds of a process that has ended. -/
def Ended (jobs : ι → Job) (start : Disk ι) (i : ι)
    (r : Except PyException (Option (List Char))) (s : Disk ι) : Prop :=
  match jobs i, r with
  | .write w, .ok _ => Published i w s
  | .write w, .error _ => w.unlinkFault = none → Cleared i s
  | .read path _, .ok (some text) => ¬IsTemp jobs path → Readable jobs start path text
  | .read _ _, .ok none => False
  | .read path _, .error _ => ¬IsTemp jobs path → start.resolve path = none

variable {jobs : ι → Job} {start : Disk ι}

theorem Idle.sound (h : Idle jobs start) : Sound jobs start start := by
  refine ⟨h.bound,?_,fun _ _ hp => hp,fun _ _ hp => hp⟩
  intro p id _ hp
  exact ⟨h.closed id (h.bound p id hp),.inl ⟨id,hp,rfl⟩⟩

theorem program_ensures (h : Idle jobs start) (i : ι) :
    Ensures jobs start i (Ended jobs start i) (program i (jobs i)) start := by
  unfold Ended
  cases hjob : jobs i with
  | write w =>
    have hun : Unmade i start := by
      intro id hid howner
      rw [h.unowned id hid] at howner
      cases howner
    refine Prog.Behaves.bind (Rely.refl jobs i)
      (atomicWriteJson_ensures hjob (target_not_temp jobs w) hun)
      (fun _ s _ hQ => Prog.Behaves.pure fun t hR _ => Published.later hQ hR) fun _ _ _ hQ => hQ
  | read path sizes =>
    exact Prog.Behaves.bind (Rely.refl jobs i) (readText_ensures h.links sizes start)
      (fun _ _ _ hQ => Prog.Behaves.pure fun _ _ _ => hQ) fun _ _ _ hQ => hQ

variable [DecidableEq ι]

/-- The processes after some schedule; a process that was killed is not scheduled any more. -/
def after (jobs : ι → Job) (start : Disk ι) (order : List ι) :
    Prog.Pool ι (Disk ι) PyException (Option (List Char)) :=
  Prog.Pool.schedule ⟨fun i => program i (jobs i),start⟩ order

theorem coordinated (h : Idle jobs start) (order : List ι) :
    (after jobs start order).Coordinated (Sound jobs start) (Rely jobs) (Move jobs)
      (Ended jobs start) :=
  Prog.Pool.Coordinated.schedule compatible ⟨h.sound,program_ensures h⟩ order

/-- At every time, whatever the schedule and wherever processes fail or are killed, a path has
one of its complete texts, and it is there if it was there at the start. -/
theorem artifacts_complete (h : Idle jobs start) (order : List ι) {path : String}
    (hpath : ¬IsTemp jobs path) :
    (∀ id, (after jobs start order).state.entry path = some (.file id) →
      Version jobs start path ((after jobs start order).state.file id).text) ∧
    ((start.entry path).isSome = true →
      ((after jobs start order).state.entry path).isSome = true) := by
  have hsound := (coordinated h order).holds
  exact ⟨fun id hp => (hsound.complete path id hpath hp).2,hsound.kept path hpath⟩

def report : ArtifactWrite :=
  { directory := "var", stem := "r1", randoms := ["ab"], pieces := [("\x7b".toList,none),("\x7d".toList,none)]
    mkdirFault := none, syncFault := none, closeFault := none, replaceFault := none
    unlinkFault := none }

/-- One process writes a report that the other one reads. -/
def pair : Bool → Job
  | true => .write report
  | false => .read "var/r1.json" [1]

def empty : Disk Bool := ⟨fun _ => none,fun _ => ⟨[],none,false⟩,0⟩

theorem idle_empty : Idle pair empty := by
  refine ⟨?_,?_,?_,?_⟩
  · intro p id h
    cases h
  · exact fun _ h => absurd h (Nat.not_lt_zero _)
  · exact fun _ h => absurd h (Nat.not_lt_zero _)
  · intro p q h
    cases h

theorem report_not_temp : ¬IsTemp pair "var/r1.json" := target_not_temp pair report

/-- The reader opens the report while the writer ends. -/
def meanwhile : List Bool := [true,true,true,true,true,false,false,false]

theorem report_complete : ∃ id,
    (after pair empty meanwhile).state.entry "var/r1.json" = some (.file id) ∧
      Version pair empty "var/r1.json" ((after pair empty meanwhile).state.file id).text :=
  ⟨0,rfl,(artifacts_complete idle_empty meanwhile report_not_temp).1 0 rfl⟩

theorem reader_ended (h : Idle jobs start) (order : List ι) {i : ι} {path : String}
    {sizes : List Nat} (hjob : jobs i = .read path sizes) (hpath : ¬IsTemp jobs path)
    {r : Except PyException (Option (List Char))}
    (hr : (after jobs start order).threads i = .done r) :
    (∃ text, r = .ok (some text) ∧ Readable jobs start path text) ∨
      (∃ exc, r = .error exc ∧ start.resolve path = none) := by
  have hended := (coordinated h order).ended compatible hr
  unfold Ended at hended
  rw [hjob] at hended
  rcases r with exc | _ | text
  · exact .inr ⟨exc,rfl,hended hpath⟩
  · exact hended.elim
  · exact .inl ⟨text,rfl,hended hpath⟩

end Runs

end NexusEtl.ArtifactFiles
