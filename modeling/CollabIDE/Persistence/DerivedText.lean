import CollabIDE.Persistence.Lifetime
import Mathlib.Data.List.Infix
/-!
# The derived text and the log

`File.content` is a projection of the log.  The text is read from the live
document when an append has returned, which is not the document that append
made durable once an update was applied in between.
-/

namespace CollabIDE.Persistence.DerivedText

open CollabIDE.Lib.Machine CollabIDE.Persistence.DocStore CollabIDE.Persistence.Buffer
open CollabIDE.Persistence.Turns CollabIDE.Persistence.Lifetime

variable {υ : Type} [DecidableEq υ] {text : Finset υ → String} {docId : String}
  {opening : Opening υ} {s s' : Room υ} {e : Event υ}

/-- A state the document was in: what was loaded, and the updates observed up
to some moment. -/
def WasDoc (opening : Opening υ) (s : Room υ) (doc : Finset υ) : Prop :=
  ∃ past, past <+: s.observed ∧ doc = contents opening.store.tables ∪ mergeUpdates past

theorem WasDoc.mono {doc : Finset υ} (h : WasDoc opening s doc)
    (hobserved : s.observed <+: s'.observed) : WasDoc opening s' doc := by
  obtain ⟨past, hpast, rfl⟩ := h
  exact ⟨past, hpast.trans hobserved, rfl⟩

/-- A document whose update 1 typed an `a` and whose update 2 typed a `b`. -/
def typed (ydoc : Finset Nat) : String :=
  (if 1 ∈ ydoc then "a" else "") ++ if 2 ∈ ydoc then "b" else ""

end CollabIDE.Persistence.DerivedText
