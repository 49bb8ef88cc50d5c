import Mathlib.Data.Finset.Disjoint
import Mathlib.Data.Finset.Lattice.Basic
import Mathlib.Data.Finset.Lattice.Lemmas
import Mathlib.Data.List.Pairwise
import Mathlib.Order.Fin.Basic
/-!
# Items packed into bins

Finite sets moved between bins that are moved, merged and reordered.  A packing
keeps every item whole in one bin and lets no two bins overlap.
-/

namespace CollabIDE.Lib.Packing

variable {α : Type*} [DecidableEq α]

/-- The items are in the bins, nothing else is, and no two bins overlap. -/
structure Packed (items bins : List (Finset α)) : Prop where
  disjoint : bins.Pairwise Disjoint
  inside : ∀ item ∈ items, ∃ bin ∈ bins, item ⊆ bin
  only : ∀ bin ∈ bins, ∀ u ∈ bin, ∃ item ∈ items, u ∈ item

/-- The bins as one. -/
def union (bins : List (Finset α)) : Finset α := bins.foldr (· ∪ ·) ∅

@[simp] theorem union_nil : union ([] : List (Finset α)) = ∅ := rfl

@[simp] theorem union_cons (bin : Finset α) (bins : List (Finset α)) :
    union (bin :: bins) = bin ∪ union bins := rfl

theorem mem_union {bins : List (Finset α)} {u : α} : u ∈ union bins ↔ ∃ bin ∈ bins, u ∈ bin := by
  induction bins with
  | nil => simp
  | cons bin bins ih => rw [union_cons, Finset.mem_union, ih, List.exists_mem_cons_iff]

theorem union_append (bins bins' : List (Finset α)) :
    union (bins ++ bins') = union bins ∪ union bins' := by
  induction bins with
  | nil => exact (Finset.empty_union _).symm
  | cons bin bins ih => rw [List.cons_append, union_cons, ih, union_cons, Finset.union_assoc]

theorem subset_union {bin : Finset α} {bins : List (Finset α)} (h : bin ∈ bins) :
    bin ⊆ union bins := fun _ hu => mem_union.mpr ⟨bin, h, hu⟩

omit [DecidableEq α] in
theorem packed_nil : Packed ([] : List (Finset α)) [] :=
  ⟨List.Pairwise.nil, by simp, by simp⟩

variable {items bins bins' : List (Finset α)}

omit [DecidableEq α] in
theorem Packed.perm (h : Packed items bins) (hperm : bins.Perm bins') : Packed items bins' where
  disjoint := (hperm.pairwise_iff fun hab => hab.symm).mp h.disjoint
  inside := fun item hitem => by
    obtain ⟨bin, hbin, hsub⟩ := h.inside item hitem
    exact ⟨bin, hperm.mem_iff.mp hbin, hsub⟩
  only := fun bin hbin => h.only bin (hperm.mem_iff.mpr hbin)

omit [DecidableEq α] in
theorem Packed.push (h : Packed items bins) {item : Finset α}
    (hnew : ∀ bin ∈ bins, Disjoint bin item) : Packed (items ++ [item]) (bins ++ [item]) where
  disjoint := by
    refine List.pairwise_append.mpr ⟨h.disjoint, List.pairwise_singleton _ _, ?_⟩
    intro bin hbin other hother
    rw [List.mem_singleton.mp hother]
    exact hnew bin hbin
  inside := fun x hx => by
    rcases List.mem_append.mp hx with hold | hlast
    · obtain ⟨bin, hbin, hsub⟩ := h.inside x hold
      exact ⟨bin, List.mem_append_left _ hbin, hsub⟩
    · rw [List.mem_singleton.mp hlast]
      exact ⟨item, List.mem_append_right _ (List.mem_singleton_self _), fun _ hu => hu⟩
  only := fun bin hbin u hu => by
    rcases List.mem_append.mp hbin with hold | hlast
    · obtain ⟨x, hx, hux⟩ := h.only bin hold u hu
      exact ⟨x, List.mem_append_left _ hx, hux⟩
    · rw [List.mem_singleton.mp hlast] at hu
      exact ⟨item, List.mem_append_right _ (List.mem_singleton_self _), hu⟩

theorem Packed.merge {last : List (Finset α)} (h : Packed items (bins ++ last)) :
    Packed items (bins ++ [union last]) where
  disjoint := by
    obtain ⟨hbins, -, hacross⟩ := List.pairwise_append.mp h.disjoint
    refine List.pairwise_append.mpr ⟨hbins, List.pairwise_singleton _ _, ?_⟩
    intro bin hbin other hother
    rw [List.mem_singleton.mp hother]
    apply Finset.disjoint_left.mpr
    intro u hu hlast
    obtain ⟨bin', hbin', hu'⟩ := mem_union.mp hlast
    exact Finset.disjoint_left.mp (hacross bin hbin bin' hbin') hu hu'
  inside := fun item hitem => by
    obtain ⟨bin, hbin, hsub⟩ := h.inside item hitem
    rcases List.mem_append.mp hbin with hold | hlast
    · exact ⟨bin, List.mem_append_left _ hold, hsub⟩
    · exact ⟨union last, List.mem_append_right _ (List.mem_singleton_self _),
        hsub.trans (subset_union hlast)⟩
  only := fun bin hbin u hu => by
    rcases List.mem_append.mp hbin with hold | hmerged
    · exact h.only bin (List.mem_append_left _ hold) u hu
    · rw [List.mem_singleton.mp hmerged] at hu
      obtain ⟨bin', hbin', hu'⟩ := mem_union.mp hu
      exact h.only bin' (List.mem_append_right _ hbin') u hu'

omit [DecidableEq α] in
theorem Packed.drop_empty {post : List (Finset α)} (h : Packed items (bins ++ ∅ :: post))
    (hne : ∀ item ∈ items, item.Nonempty) : Packed items (bins ++ post) := by
  have hsub : (bins ++ post).Sublist (bins ++ ∅ :: post) :=
    (List.sublist_cons_self _ _).append_left _
  refine ⟨h.disjoint.sublist hsub, fun item hitem => ?_, fun bin hbin => h.only bin (hsub.mem hbin)⟩
  obtain ⟨bin, hbin, hinside⟩ := h.inside item hitem
  refine ⟨bin, ?_, hinside⟩
  have hbin' : bin ≠ ∅ := ((hne item hitem).mono hinside).ne_empty
  rcases List.mem_append.mp hbin with hpre | hcons
  · exact List.mem_append_left _ hpre
  · exact List.mem_append_right _ ((List.mem_cons.mp hcons).resolve_left hbin')

omit [DecidableEq α] in
/-- An item is in one bin and meets no other. -/
theorem Packed.exists_bin (h : Packed items bins) {item : Finset α} (hitem : item ∈ items) :
    ∃ i : Fin bins.length, item ⊆ bins.get i ∧ ∀ j, j ≠ i → Disjoint item (bins.get j) := by
  obtain ⟨bin, hbin, hsub⟩ := h.inside item hitem
  obtain ⟨i, rfl⟩ := List.get_of_mem hbin
  refine ⟨i, hsub, fun j hj => ?_⟩
  apply Finset.disjoint_of_subset_left hsub
  rcases lt_or_gt_of_ne hj with hlt | hlt
  · exact (List.pairwise_iff_get.mp h.disjoint j i hlt).symm
  · exact List.pairwise_iff_get.mp h.disjoint i j hlt

end CollabIDE.Lib.Packing
