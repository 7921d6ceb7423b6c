import Mathlib.Data.List.Infix
import Mathlib.Data.List.Basic

/-!
# Frames of a stream

A text that comes in chunks of any size is cut into frames at a stop symbol; what follows the last
stop is kept for the next chunk. The frames are those that the stream has symbol by symbol, so
that they do not depend on the chunks.
-/

set_option autoImplicit false

namespace NexusEtl.Library

variable {σ : Type} [DecidableEq σ] (stop : σ)

/-- The frames of a text that its stops close, and the rest. -/
def frames : List σ → List (List σ) × List σ
  | [] => ([],[])
  | c::cs =>
    if c = stop then ([]::(frames cs).1,(frames cs).2)
    else match (frames cs).1 with
      | [] => ([],c::(frames cs).2)
      | frame::closed => ((c::frame)::closed,(frames cs).2)

/-- One symbol of a stream, the end of an open frame, or its loss. -/
inductive Token (σ : Type)
  | sym (c : σ)
  | close
  | drop
  deriving DecidableEq, Repr

/-- The frames of a stream in front of which the symbols of a buffer stand, symbol by symbol. -/
def framesOf (buffer : List σ) : List (Token σ) → List (List σ)
  | [] => []
  | .sym c::ts => if c = stop then buffer::framesOf [] ts else framesOf (buffer ++ [c]) ts
  | .close::ts => buffer::framesOf [] ts
  | .drop::ts => framesOf [] ts

/-- The open frame behind a stream. -/
def openFrame (buffer : List σ) : List (Token σ) → List σ
  | [] => buffer
  | .sym c::ts => if c = stop then openFrame [] ts else openFrame (buffer ++ [c]) ts
  | .close::ts => openFrame [] ts
  | .drop::ts => openFrame [] ts

variable {stop}

theorem framesOf_append (buffer : List σ) (ts us : List (Token σ)) :
    framesOf stop buffer (ts ++ us) =
      framesOf stop buffer ts ++ framesOf stop (openFrame stop buffer ts) us := by
  induction ts generalizing buffer with
  | nil => rfl
  | cons t ts ih =>
    cases t with
    | sym c =>
      simp only [List.cons_append, framesOf, openFrame]
      split <;> simp [ih]
    | close => simp [framesOf, openFrame, ih]
    | drop => simp [framesOf, openFrame, ih]

theorem openFrame_append (buffer : List σ) (ts us : List (Token σ)) :
    openFrame stop buffer (ts ++ us) = openFrame stop (openFrame stop buffer ts) us := by
  induction ts generalizing buffer with
  | nil => rfl
  | cons t ts ih =>
    cases t with
    | sym c =>
      simp only [List.cons_append, openFrame]
      split <;> simp [ih]
    | close => simp [openFrame, ih]
    | drop => simp [openFrame, ih]

theorem stop_notMem_openFrame {buffer : List σ} (h : stop ∉ buffer) (ts : List (Token σ)) :
    stop ∉ openFrame stop buffer ts := by
  induction ts generalizing buffer with
  | nil => exact h
  | cons t ts ih =>
    cases t with
    | sym c =>
      unfold openFrame
      split
      · exact ih List.not_mem_nil
      · rename_i hc
        exact ih (by simp [h, Ne.symm hc])
    | close => exact ih List.not_mem_nil
    | drop => exact ih List.not_mem_nil

/-- An open frame goes on with the first frame that is closed behind it. -/
theorem frames_word {word : List σ} (h : stop ∉ word) (cs : List σ) :
    frames stop (word ++ cs) = match (frames stop cs).1 with
      | [] => ([],word ++ (frames stop cs).2)
      | frame::closed => ((word ++ frame)::closed,(frames stop cs).2) := by
  induction word with
  | nil =>
    rw [List.nil_append]
    rcases frames stop cs with ⟨_ | ⟨frame,closed⟩,rest⟩ <;> rfl
  | cons c word ih =>
    have hc : c ≠ stop := fun hc => h (hc ▸ List.mem_cons_self)
    rw [List.cons_append, frames, ih fun hw => h (List.mem_cons_of_mem c hw)]
    rcases frames stop cs with ⟨_ | ⟨frame,closed⟩,rest⟩ <;> simp [hc]

/-- A chunk behind an open frame is cut as the stream of its symbols is. -/
theorem frames_chunk {buffer : List σ} (h : stop ∉ buffer) (chunk : List σ) :
    frames stop (buffer ++ chunk) =
      (framesOf stop buffer (chunk.map .sym),openFrame stop buffer (chunk.map .sym)) := by
  induction chunk generalizing buffer with
  | nil =>
    rw [frames_word h, frames, List.append_nil]
    rfl
  | cons c chunk ih =>
    by_cases hc : c = stop
    · have hrest := ih (List.not_mem_nil (a := stop))
      rw [List.nil_append] at hrest
      rw [frames_word h, frames, if_pos hc, hrest]
      simp [framesOf, openFrame, hc]
    · have hnext : stop ∉ buffer ++ [c] := by simp [h, Ne.symm hc]
      rw [List.append_cons, ih hnext]
      simp [framesOf, openFrame, hc]

/-- A frame holds no stop and stands in the stream in one piece. -/
theorem mem_framesOf {buffer : List σ} (h : stop ∉ buffer) {ts : List (Token σ)} {frame : List σ}
    (hframe : frame ∈ framesOf stop buffer ts) :
    stop ∉ frame ∧ frame.map .sym <:+: buffer.map .sym ++ ts := by
  induction ts generalizing buffer with
  | nil => cases hframe
  | cons t ts ih =>
    have hlater (hmem : frame ∈ framesOf stop [] ts) :
        stop ∉ frame ∧ frame.map .sym <:+: buffer.map .sym ++ t::ts := by
      obtain ⟨hstop,hpart⟩ := ih List.not_mem_nil hmem
      refine ⟨hstop,hpart.trans ?_⟩
      rw [List.map_nil, List.nil_append, List.append_cons]
      exact (List.suffix_append _ ts).isInfix
    have hnow (hmem : frame = buffer) :
        stop ∉ frame ∧ frame.map .sym <:+: buffer.map .sym ++ t::ts := by
      rw [hmem]
      exact ⟨h,(List.prefix_append _ _).isInfix⟩
    cases t with
    | sym c =>
      unfold framesOf at hframe
      split at hframe
      · rcases List.mem_cons.mp hframe with hmem | hmem
        · exact hnow hmem
        · exact hlater hmem
      · rename_i hc
        have hnext := ih (by simp [h, Ne.symm hc]) hframe
        rwa [List.map_append, List.append_assoc] at hnext
    | close =>
      rcases List.mem_cons.mp hframe with hmem | hmem
      · exact hnow hmem
      · exact hlater hmem
    | drop => exact hlater hframe

end NexusEtl.Library
