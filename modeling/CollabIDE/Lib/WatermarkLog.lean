import Mathlib.Data.List.Basic
import Mathlib.Order.Lattice
import Mathlib.Order.BoundedOrder.Basic
/-!
# Logs behind a watermark

A store of joinable values kept as one base value, a watermark and a log of
keyed entries; the entries at or below the watermark are already in the base.
A checkpoint folds a prefix of the log into the base and raises the watermark.
The facts here say when a checkpoint keeps the contents, for any linearly
ordered keys and any join-semilattice of values.
-/

namespace CollabIDE.Lib.WatermarkLog

variable {ε κ τ D : Type*} [LinearOrder κ] [LinearOrder τ] [SemilatticeSup D]

/-- Join a list of values onto a base. -/
def fold (base : D) (vals : List D) : D := vals.foldl (· ⊔ ·) base

@[simp] theorem fold_nil (base : D) : fold base [] = base := rfl

theorem fold_cons (base v : D) (vals : List D) :
    fold base (v :: vals) = fold (base ⊔ v) vals := rfl

theorem fold_le_iff {base d : D} {vals : List D} :
    fold base vals ≤ d ↔ base ≤ d ∧ ∀ v ∈ vals, v ≤ d := by
  induction vals generalizing base with
  | nil => simp
  | cons v vals ih =>
      rw [fold_cons, ih, sup_le_iff]
      simp only [List.forall_mem_cons, and_assoc]

theorem base_le_fold (base : D) (vals : List D) : base ≤ fold base vals :=
  (fold_le_iff.mp le_rfl).1

theorem fold_append (base : D) (vals vals' : List D) :
    fold base (vals ++ vals') = fold (fold base vals) vals' :=
  List.foldl_append

section Contents

variable (key : ε → κ) (val : ε → D)

/-- The entries a reader of the watermark `w` still has to replay. -/
def above (w : κ) (log : List ε) : List ε := log.filter (w < key ·)

/-- Everything the store holds: the base and the entries above the watermark. -/
def contents (base : D) (w : κ) (log : List ε) : D :=
  fold base ((above key w log).map val)

variable {key val}

@[simp] theorem mem_above {w : κ} {log : List ε} {e : ε} :
    e ∈ above key w log ↔ e ∈ log ∧ w < key e := by
  simp [above]

theorem contents_le_iff {base d : D} {w : κ} {log : List ε} :
    contents key val base w log ≤ d ↔
      base ≤ d ∧ ∀ e ∈ log, w < key e → val e ≤ d := by
  rw [contents, fold_le_iff]
  simp only [List.forall_mem_map, mem_above, and_imp]

theorem base_le_contents (base : D) (w : κ) (log : List ε) :
    base ≤ contents key val base w log :=
  base_le_fold _ _

theorem val_le_contents {base : D} {w : κ} {log : List ε} {e : ε}
    (he : e ∈ log) (hw : w < key e) : val e ≤ contents key val base w log :=
  (contents_le_iff.mp le_rfl).2 e he hw

theorem contents_mono {base : D} {w : κ} {log log' : List ε}
    (h : ∀ e ∈ log, e ∈ log') :
    contents key val base w log ≤ contents key val base w log' :=
  contents_le_iff.mpr ⟨base_le_contents _ _ _, fun e he hw => val_le_contents (h e he) hw⟩

theorem contents_append_of_lt {base : D} {w : κ} {log : List ε} {e : ε}
    (hw : w < key e) :
    contents key val base w (log ++ [e]) = contents key val base w log ⊔ val e := by
  rw [contents, above, List.filter_append, List.map_append, fold_append]
  simp [hw, fold, contents, above]

/-- A checkpoint keeps the contents when it folds no value from outside the
store and leaves out no entry it removes. -/
theorem contents_checkpoint {base base' : D} {w t : κ} {log : List ε} (hwt : w ≤ t)
    (hsound : base' ≤ contents key val base w log) (hbase : base ≤ base')
    (hcover : ∀ e ∈ log, w < key e → key e ≤ t → val e ≤ base') :
    contents key val base' t (log.filter (t < key ·)) = contents key val base w log := by
  apply le_antisymm
  · refine contents_le_iff.mpr ⟨hsound, fun e he ht => ?_⟩
    exact val_le_contents (List.mem_filter.mp he).1 (hwt.trans_lt ht)
  · refine contents_le_iff.mpr ⟨hbase.trans (base_le_contents _ _ _), fun e he hw => ?_⟩
    by_cases ht : key e ≤ t
    · exact (hcover e he hw ht).trans (base_le_contents _ _ _)
    · have htlt : t < key e := lt_of_not_ge ht
      exact val_le_contents (List.mem_filter.mpr ⟨he, by simpa using htlt⟩) htlt

end Contents

section Aged

variable {key : ε → κ} {stamp : ε → τ}

/-- Stamps do not decrease along the keys of the log. -/
def StampsMonotone (key : ε → κ) (stamp : ε → τ) (log : List ε) : Prop :=
  ∀ e ∈ log, ∀ e' ∈ log, key e ≤ key e' → stamp e ≤ stamp e'

/-- Below the key of an entry older than the cutoff every entry is older than
the cutoff, so selecting by age never skips one. -/
theorem stamp_lt_of_key_le {log : List ε} (hmono : StampsMonotone key stamp log)
    {e last : ε} (he : e ∈ log) (hlast : last ∈ log) (hle : key e ≤ key last)
    {cutoff : τ} (hcut : stamp last < cutoff) : stamp e < cutoff :=
  (hmono e he last hlast hle).trans_lt hcut

theorem key_lt_of_stamp {log : List ε} (hmono : StampsMonotone key stamp log)
    {e last : ε} (he : e ∈ log) (hlast : last ∈ log) {cutoff : τ}
    (hcut : stamp last < cutoff) (hage : cutoff ≤ stamp e) : key last < key e := by
  by_contra hnot
  have hlt := stamp_lt_of_key_le hmono he hlast (le_of_not_gt hnot) hcut
  exact absurd hlt (not_lt_of_ge hage)

end Aged

end CollabIDE.Lib.WatermarkLog
