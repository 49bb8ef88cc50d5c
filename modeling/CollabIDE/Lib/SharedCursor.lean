import Mathlib.Data.List.Perm.Basic
/-!
# Workers on a shared cursor

Workers take the items of a list one after another from a cursor they share and
put each down when they are done with it.  However their turns interleave, what
is done and what is in hand are together the items the cursor has passed.
-/

namespace CollabIDE.Lib.SharedCursor

variable {α : Type*} {items done busy busy' : List α} {cursor : Nat} {a : α}

/-- The items before the cursor are done or in hand, each once. -/
def Shared (items : List α) (cursor : Nat) (done busy : List α) : Prop :=
  (done ++ busy).Perm (items.take cursor)

theorem shared_nil (items : List α) : Shared items 0 [] [] := List.Perm.refl _

theorem Shared.perm_busy (h : Shared items cursor done busy) (hperm : busy'.Perm busy) :
    Shared items cursor done busy' := (hperm.append_left done).trans h

theorem Shared.pull (h : Shared items cursor done busy) (ha : items[cursor]? = some a) :
    Shared items (cursor + 1) done (busy ++ [a]) := by
  have hlt : cursor < items.length := (List.getElem?_eq_some_iff.mp ha).1
  have htake : items.take (cursor + 1) = items.take cursor ++ [a] := by
    rw [List.take_add_one, ha, Option.toList_some]
  rw [Shared, htake, ← List.append_assoc]
  exact h.append_right [a]

theorem Shared.past (h : Shared items cursor done busy) (ha : items[cursor]? = none) :
    Shared items (cursor + 1) done busy := by
  have hle : items.length ≤ cursor := List.getElem?_eq_none_iff.mp ha
  rw [Shared, List.take_of_length_le (Nat.le_succ_of_le hle)]
  rwa [Shared, List.take_of_length_le hle] at h

theorem Shared.finish (h : Shared items cursor done busy) (hbusy : busy.Perm (a :: busy')) :
    Shared items cursor (done ++ [a]) busy' := by
  rw [Shared, List.append_assoc]
  exact (hbusy.append_left done).symm.trans h

/-- With nothing in hand and the cursor at the end everything is done. -/
theorem Shared.all (h : Shared items cursor done []) (hend : items.length ≤ cursor) :
    done.Perm items := by
  rwa [Shared, List.append_nil, List.take_of_length_le hend] at h

theorem Shared.subperm (h : Shared items cursor done busy) : done.Subperm items :=
  (List.sublist_append_left done busy).subperm.trans
    ((List.Perm.subperm h).trans (List.take_sublist cursor items).subperm)

end CollabIDE.Lib.SharedCursor
