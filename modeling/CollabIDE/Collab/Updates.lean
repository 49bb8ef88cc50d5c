import Mathlib.Data.Finset.Basic
/-!
# Updates of a document

A document is the set of updates applied to it: the seed a room inserted from
`File.content`, and the edits made since.
-/

namespace CollabIDE.Collab

inductive Update
  /-- The text that creation `r` inserted into an empty document. -/
  | seed (r : Nat)
  | edit (n : Nat)
  deriving DecidableEq

def Update.isSeed : Update → Bool
  | .seed _ => true
  | .edit _ => false

/-- The seeds a document contains. -/
def seedsIn (ydoc : Finset Update) : Finset Update := ydoc.filter fun u => u.isSeed

/-- The document a room seeds from `File.content`; no text, no insert. -/
def seedOf (r : Nat) (content : String) : Finset Update :=
  if content.length > 0 then {.seed r} else ∅

theorem eq_seed_of_mem_seedOf {r : Nat} {content : String} {u : Update}
    (hu : u ∈ seedOf r content) : u = .seed r := by
  unfold seedOf at hu
  split at hu
  · exact Finset.mem_singleton.mp hu
  · simp at hu

theorem seedsIn_seedOf (r : Nat) (content : String) :
    seedsIn (seedOf r content) = seedOf r content := by
  unfold seedOf
  split <;> rfl

end CollabIDE.Collab
