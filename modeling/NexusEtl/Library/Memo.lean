import Mathlib.Data.List.Basic

/-!
# Memo tables

A memo table answers a question with what it computed for an equal one before. Its
equality may be coarser than identity, so a table can answer with the result of
another question. The entry that was asked for least recently leaves a full table.
-/

set_option autoImplicit false

namespace NexusEtl.Library

variable {α β : Type}

/-- A result beside the question that it was computed for. -/
structure MemoEntry (f : α → β) where
  key : α
  result : β
  made : result = f key

/-- The entries, the last that was asked for first. -/
abbrev Memo (f : α → β) := List (MemoEntry f)

namespace Memo

variable {f : α → β} (same : α → α → Bool) (size : Nat)

/-- The entry that answers a question. -/
def stored (memo : Memo f) (a : α) : Option (MemoEntry f) :=
  List.find? (fun entry => same a entry.key) memo

def call (memo : Memo f) (a : α) : β × Memo f :=
  match memo.stored same a with
  | some entry => (entry.result,entry :: List.eraseP (fun e => same a e.key) memo)
  | none => (f a,List.take size (⟨a,f a,rfl⟩ :: memo))

variable {same size}

theorem call_none {memo : Memo f} {a : α} (h : memo.stored same a = none) :
    (memo.call same size a).1 = f a := by
  rw [call, h]

theorem call_some {memo : Memo f} {a : α} {entry : MemoEntry f}
    (h : memo.stored same a = some entry) : (memo.call same size a).1 = f entry.key := by
  rw [call, h]
  exact entry.made

/-- An entry answers only questions that are equal to its own. -/
theorem same_of_stored {memo : Memo f} {a : α} {entry : MemoEntry f}
    (h : memo.stored same a = some entry) : same a entry.key = true := by
  rw [stored] at h
  simpa using List.find?_some h

end Memo

end NexusEtl.Library
