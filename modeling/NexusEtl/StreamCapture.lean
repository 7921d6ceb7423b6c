import NexusEtl.Library.Framing
import NexusEtl.LogRedaction

/-!
# The capture of stdout and stderr

A command's output goes to its stream and, line by line, into the log. Texts are written in chunks
of any size, both streams share one gate that prompts open and close, also within one another, and
while it is open nothing is captured. The lines of the log are those of a transcript that knows
nothing of the chunks.
-/

set_option autoImplicit false

namespace NexusEtl.StreamCapture
open NexusEtl.Library

inductive LogMethod
  | critical | error | warning | info | debug
  deriving DecidableEq, Repr

structure CapturedLine where
  method : LogMethod
  event : String
  capturedStream : String
  deriving DecidableEq, Repr

structure StdStreamToLogger where
  level : Nat
  component : String
  redactionEngine : Option LogRedactionEngine
  hasGate : Bool

/-- `_dispatch_log` -/
def dispatchLog (level : Nat) : LogMethod :=
  if 50 ≤ level then .critical
  else if 40 ≤ level then .error
  else if 30 ≤ level then .warning
  else if 20 ≤ level then .info
  else .debug

def rstrip (cs : List Char) : List Char := (cs.reverse.dropWhile Text.isSpace).reverse

namespace StdStreamToLogger

variable (stream : StdStreamToLogger)

def redact (line : String) : String :=
  match stream.redactionEngine with
  | none => line
  | some engine => engine.redactText line

def emitIfNotBlank (line : List Char) : Option CapturedLine :=
  if Text.strip (String.ofList line) = "" then none
  else some ⟨dispatchLog stream.level,stream.redact (String.ofList (rstrip line)),stream.component⟩

def captureSuppressed (gateDepth : Nat) : Bool := stream.hasGate && decide (0 < gateDepth)

/-- `write`: the lines that it emits and the buffer that it leaves. -/
def write (gateDepth : Nat) (buffer value : List Char) : List CapturedLine × List Char :=
  if value = [] then ([],buffer)
  else if stream.captureSuppressed gateDepth then ([],[])
  else
    -- the loop over `buffer.split("\n", 1)`
    let drained := frames '\n' (buffer ++ value)
    (drained.1.filterMap stream.emitIfNotBlank,drained.2)

def flush (gateDepth : Nat) (buffer : List Char) : List CapturedLine × List Char :=
  if stream.captureSuppressed gateDepth then ([],[])
  else ((stream.emitIfNotBlank buffer).toList,[])

end StdStreamToLogger

/-! ## Runs of a command -/

inductive Stream
  | stdout | stderr
  deriving DecidableEq, Repr

/-- The two `TeeStream`s of a command and its prompts. -/
inductive Event
  | write (target : Stream) (value : List Char)
  | flush (target : Stream)
  | enterPrompt
  | leavePrompt
  deriving DecidableEq, Repr

structure Output where
  gateDepth : Nat
  primary : Stream → List Char
  buffer : Stream → List Char
  logged : List (Stream × CapturedLine)

def Output.start : Output := ⟨0,fun _ => [],fun _ => [],[]⟩

variable (streams : Stream → StdStreamToLogger)

def Output.capture (o : Output) (target : Stream) (r : List CapturedLine × List Char) : Output :=
  { o with buffer := Function.update o.buffer target r.2
           logged := o.logged ++ r.1.map fun line => (target,line) }

def Output.step (o : Output) : Event → Output
  | .write target value =>
    { o.capture target ((streams target).write o.gateDepth (o.buffer target) value) with
      primary := Function.update o.primary target (o.primary target ++ value) }
  | .flush target => o.capture target ((streams target).flush o.gateDepth (o.buffer target))
  | .enterPrompt => { o with gateDepth := o.gateDepth+1 }
  | .leavePrompt => { o with gateDepth := o.gateDepth-1 }

def after (events : List Event) : Output := events.foldl (Output.step streams) .start

/-! ## The transcript -/

/-- The number of open prompts behind an event. -/
def depthAfter (depth : Nat) : Event → Nat
  | .enterPrompt => depth+1
  | .leavePrompt => depth-1
  | _ => depth

/-- What one event adds to the transcript of a stream: its symbols and the end of its open line,
or with a prompt open the loss of that line. -/
def tokensOf (target : Stream) (depth : Nat) : Event → List (Token Char)
  | .write s value =>
    if s ≠ target ∨ value = [] then []
    else if (streams target).captureSuppressed depth then [.drop]
    else value.map .sym
  | .flush s =>
    if s ≠ target then []
    else if (streams target).captureSuppressed depth then [.drop]
    else [.close]
  | _ => []

def transcript (target : Stream) (depth : Nat) : List Event → List (Token Char)
  | [] => []
  | e::es => tokensOf streams target depth e ++ transcript target (depthAfter depth e) es

/-- Everything that was written to a stream. -/
def written (target : Stream) (events : List Event) : List Char :=
  events.flatMap fun e => match e with
    | .write s value => if s = target then value else []
    | _ => []

def Output.loggedOf (o : Output) (target : Stream) : List CapturedLine :=
  o.logged.filterMap fun p => if p.1 = target then some p.2 else none

/-! ## What is logged -/

/-- The output agrees with a stream's transcript so far. -/
structure Follows (target : Stream) (text : List Char) (ts : List (Token Char)) (o : Output) :
    Prop where
  primary : o.primary target = text
  buffer : o.buffer target = openFrame '\n' [] ts
  logged : o.loggedOf target = (framesOf '\n' [] ts).filterMap (streams target).emitIfNotBlank

variable {streams}

theorem write_answer {s target : Stream} (hs : s = target) {depth : Nat} {buffer : List Char}
    (h : '\n' ∉ buffer) (value : List Char) :
    (streams s).write depth buffer value =
      ((framesOf '\n' buffer (tokensOf streams target depth (.write s value))).filterMap
        (streams target).emitIfNotBlank,
        openFrame '\n' buffer (tokensOf streams target depth (.write s value))) := by
  subst hs
  by_cases hvalue : value = []
  · simp [StdStreamToLogger.write, tokensOf, hvalue, framesOf, openFrame]
  · unfold StdStreamToLogger.write
    simp only [tokensOf, hvalue, ne_eq, not_true_eq_false, or_self, if_false]
    split
    · rfl
    · rw [frames_chunk h]

theorem flush_answer {s target : Stream} (hs : s = target) {depth : Nat} (buffer : List Char) :
    (streams s).flush depth buffer =
      ((framesOf '\n' buffer (tokensOf streams target depth (.flush s))).filterMap
        (streams target).emitIfNotBlank,
        openFrame '\n' buffer (tokensOf streams target depth (.flush s))) := by
  subst hs
  unfold StdStreamToLogger.flush
  simp only [tokensOf, ne_eq, not_true_eq_false, if_false]
  split
  · rfl
  · cases hline : (streams s).emitIfNotBlank buffer <;> simp [framesOf, openFrame, hline]

theorem loggedOf_capture (o : Output) (target s : Stream) (r : List CapturedLine × List Char) :
    (o.capture s r).loggedOf target =
      o.loggedOf target ++ if s = target then r.1 else [] := by
  unfold Output.loggedOf Output.capture
  rw [List.filterMap_append, List.filterMap_map]
  split
  · rename_i hs
    simp [hs]
  · rename_i hs
    simp [hs]

/-- What the capture answers for a stream goes on with the stream's transcript. -/
theorem Follows.capture {target : Stream} {text : List Char} {ts : List (Token Char)}
    {o : Output} (h : Follows streams target text ts o) (s : Stream) (us : List (Token Char))
    {r : List CapturedLine × List Char}
    (hr : s = target → r = ((framesOf '\n' (o.buffer s) us).filterMap
        (streams target).emitIfNotBlank,openFrame '\n' (o.buffer s) us))
    (hother : s ≠ target → us = []) :
    Follows streams target text (ts ++ us) (o.capture s r) := by
  by_cases hs : s = target
  · subst hs
    refine ⟨h.primary,?_,?_⟩
    · rw [openFrame_append, ← h.buffer]
      simp [Output.capture, hr rfl]
    · rw [loggedOf_capture, if_pos rfl, h.logged, framesOf_append, ← h.buffer,
        List.filterMap_append, hr rfl]
  · rw [hother hs, List.append_nil]
    refine ⟨h.primary,?_,?_⟩
    · simpa [Output.capture, Function.update_of_ne (Ne.symm hs)] using h.buffer
    · rw [loggedOf_capture, if_neg hs, List.append_nil]
      exact h.logged

theorem Follows.step {target : Stream} {text : List Char} {ts : List (Token Char)} {o : Output}
    (h : Follows streams target text ts o) (e : Event) :
    Follows streams target (text ++ written target [e])
      (ts ++ tokensOf streams target o.gateDepth e) (Output.step streams o e) := by
  have hline : '\n' ∉ o.buffer target := by
    rw [h.buffer]
    exact stop_notMem_openFrame List.not_mem_nil ts
  cases e with
  | write s value =>
    have hcaptured := h.capture s (tokensOf streams target o.gateDepth (.write s value))
      (fun hs => write_answer hs (hs ▸ hline) value) fun hs => by simp [tokensOf, hs]
    refine ⟨?_,hcaptured.buffer,hcaptured.logged⟩
    by_cases hs : s = target
    · subst hs
      simp [Output.step, written, h.primary]
    · simp [Output.step, written, hs, Function.update_of_ne (Ne.symm hs), h.primary]
  | flush s =>
    have hcaptured := h.capture s (tokensOf streams target o.gateDepth (.flush s))
      (fun hs => flush_answer hs (o.buffer s)) fun hs => by simp [tokensOf, hs]
    simpa [written, Output.step] using hcaptured
  | enterPrompt => simpa [written, tokensOf] using ⟨h.primary,h.buffer,h.logged⟩
  | leavePrompt => simpa [written, tokensOf] using ⟨h.primary,h.buffer,h.logged⟩

theorem gateDepth_step (o : Output) (e : Event) :
    (Output.step streams o e).gateDepth = depthAfter o.gateDepth e := by
  cases e <;> rfl

theorem Follows.run {target : Stream} {text : List Char} {ts : List (Token Char)} {o : Output}
    (h : Follows streams target text ts o) (events : List Event) :
    Follows streams target (text ++ written target events)
      (ts ++ transcript streams target o.gateDepth events) (events.foldl (Output.step streams) o) := by
  induction events generalizing text ts o with
  | nil => simpa [written, transcript] using h
  | cons e events ih =>
    have hrest := ih (h.step e)
    rw [gateDepth_step] at hrest
    simpa [written, transcript, List.append_assoc] using hrest

/-- A stream gets all that is written to it; the log gets the lines of its transcript, stripped and
redacted, whatever the chunks and the events of the other stream. No line holds a line break, and
each stands in the transcript in one piece, in which nothing of a prompt occurs. -/
theorem after_transcript (streams : Stream → StdStreamToLogger) (events : List Event)
    (target : Stream) :
    (after streams events).primary target = written target events ∧
    (after streams events).loggedOf target =
      (framesOf '\n' [] (transcript streams target 0 events)).filterMap
        (streams target).emitIfNotBlank ∧
    ∀ line ∈ framesOf '\n' [] (transcript streams target 0 events),
      '\n' ∉ line ∧ line.map .sym <:+: transcript streams target 0 events := by
  have hstart : Follows streams target [] [] .start := ⟨rfl,rfl,rfl⟩
  have hrun := hstart.run events
  simp only [List.nil_append] at hrun
  exact ⟨hrun.primary,hrun.logged,fun line hline => mem_framesOf List.not_mem_nil hline⟩

end NexusEtl.StreamCapture
