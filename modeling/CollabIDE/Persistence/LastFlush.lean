import CollabIDE.Persistence.Lifetime
/-!
# The final flush of an eviction

What an eviction leaves unwritten when appends may fail.  The final flush
captures the buffer as it was then; an append that was already in flight puts
its batch back behind that capture when it fails.
-/

namespace CollabIDE.Persistence.LastFlush

open CollabIDE.Lib.Machine CollabIDE.Persistence.DocStore CollabIDE.Persistence.Buffer
open CollabIDE.Persistence.Turns CollabIDE.Persistence.Lifetime

variable {υ : Type}

/-- Part of an append that was started after the final flush was requested and
failed. -/
def TriedLate (s : Room υ) (u : υ) : Prop :=
  ∃ a, (a, none) ∈ s.appended ∧ a.late = true ∧ ∃ chunk ∈ a.batch, u ∈ chunk.update

/-- Unwritten, and not in a batch up to flush number `ticket`. -/
def Leftover (b : DocPersistence υ) (ticket : Nat) (u : υ) : Prop :=
  (∃ chunk ∈ b.buffered, u ∈ chunk.update) ∨
    (∃ batch ∈ b.chain.drop (ticket - begun b), ∃ chunk ∈ batch, u ∈ chunk.update) ∨
    ticket ≤ b.settled ∧ ∃ merged, b.writing = .appending merged ∧ u ∈ merged

section Turn

variable [DecidableEq υ] {docId : String} {store store' : Store υ} {b b' : DocPersistence υ}
  {e : WriteEvent υ} {ticket : Nat} {u : υ}

end Turn

/-- What the final flush leaves over was tried after it, and failed. -/
structure Saved (s : Room υ) : Prop where
  tried : ∀ ticket, s.ticket = some ticket → ∀ u, Leftover s.buffer ticket u → TriedLate s u
  settled : s.destroyed = true → ∃ ticket, s.ticket = some ticket ∧ ticket ≤ s.buffer.settled

end CollabIDE.Persistence.LastFlush
