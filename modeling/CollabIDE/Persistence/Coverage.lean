import CollabIDE.Persistence.Compactor
/-!
# What a compaction deletes

`readForCompaction` picks rows by id and by age, `compact` deletes by id alone.
The two agree just where no row that is too young to fold has an older row
above it.
-/

namespace CollabIDE.Persistence.Coverage

open CollabIDE.Lib CollabIDE.Persistence.Compactor CollabIDE.Persistence.DocStore

variable {υ : Type}

/-- The rows a candidate folds, in its order. -/
def candidateRows (t : Tables υ) (cutoff : Int) : List (DocUpdate υ) :=
  orderByIdAsc (t.docUpdate.filter fun row =>
    updateIdOrZero t.docSnapshot < row.id ∧ row.createdAt < cutoff)

theorem mem_candidateRows {t : Tables υ} {cutoff : Int} {row : DocUpdate υ} :
    row ∈ candidateRows t cutoff ↔
      row ∈ t.docUpdate ∧ updateIdOrZero t.docSnapshot < row.id ∧ row.createdAt < cutoff := by
  simp [candidateRows]

/-- What is deleted above the watermark was folded, and the document loads as before. -/
structure DeletesFolded [DecidableEq υ] (cutoff : Int) (t u : Tables υ) : Prop where
  folded : ∀ row ∈ t.docUpdate, row ∉ u.docUpdate → updateIdOrZero t.docSnapshot < row.id →
    row ∈ candidateRows t cutoff
  rebuilt : rebuild (load u) = rebuild (load t)

/-- Above the watermark the rows too young to fold follow those old enough. -/
def AgesSplit (cutoff : Int) (t : Tables υ) : Prop :=
  ∀ young ∈ t.docUpdate, ∀ old ∈ t.docUpdate, updateIdOrZero t.docSnapshot < young.id →
    updateIdOrZero t.docSnapshot < old.id → cutoff ≤ young.createdAt → old.createdAt < cutoff →
      old.id < young.id

theorem throughUpdateId_eq_none {t : Tables υ} {cutoff : Int}
    (h : (readForCompaction t cutoff).throughUpdateId = none) : candidateRows t cutoff = [] :=
  List.getLast?_eq_none_iff.mp (Option.map_eq_none_iff.mp h)

/-- Stamps that follow the ids are split by every cutoff. -/
theorem agesSplit_of_stampsMonotone {t : Tables υ}
    (h : WatermarkLog.StampsMonotone DocUpdate.id DocUpdate.createdAt t.docUpdate)
    (cutoff : Int) : AgesSplit cutoff t := by
  intro young hyoung old hold _ _ hage hage'
  by_contra hle
  have hstamp := h young hyoung old hold (Nat.le_of_not_lt hle)
  omega

variable {t : Tables υ} {cutoff : Int} {through : Nat}

theorem age_lt_of_le (hsplit : AgesSplit cutoff t)
    (h : (readForCompaction t cutoff).throughUpdateId = some through) {row : DocUpdate υ}
    (hrow : row ∈ t.docUpdate) (hid : updateIdOrZero t.docSnapshot < row.id)
    (hle : row.id ≤ through) : row.createdAt < cutoff := by
  obtain ⟨last, hlast, rfl, habove, hold⟩ := throughUpdateId_eq_some h
  by_contra hyoung
  have hlt := hsplit row hrow last hlast hid habove (Int.not_lt.mp hyoung) hold
  omega

variable [DecidableEq υ]

/-- Folding a candidate into the store it was read from keeps the document. -/
theorem contents_compacted_read (hsplit : AgesSplit cutoff t)
    (h : (readForCompaction t cutoff).throughUpdateId = some through) :
    contents (compacted t (foldCandidate (readForCompaction t cutoff)) through) = contents t := by
  obtain ⟨-, -, -, habove, -⟩ := throughUpdateId_eq_some h
  refine contents_compacted habove.le (foldCandidate_subset t cutoff)
    (snapshot_subset_foldCandidate t cutoff) fun row hrow hid hle u hu => ?_
  exact mem_foldCandidate.mpr (.inr ⟨row, hrow, hid, age_lt_of_le hsplit h hrow hid hle, hu⟩)

theorem deletesFolded_refl (cutoff : Int) (t : Tables υ) : DeletesFolded cutoff t t where
  folded _ hrow hgone _ := absurd hrow hgone
  rebuilt := rfl

theorem deletesFolded_compacted_iff
    (h : (readForCompaction t cutoff).throughUpdateId = some through) :
    DeletesFolded cutoff t (compacted t (foldCandidate (readForCompaction t cutoff)) through) ↔
      AgesSplit cutoff t := by
  have hgone : ∀ row ∈ t.docUpdate,
      row ∉ (compacted t (foldCandidate (readForCompaction t cutoff)) through).docUpdate ↔
        row.id ≤ through := by
    intro row hrow
    simp [compacted, hrow]
  constructor
  · intro hfolds young hyoung old hold habove habove' hage hage'
    by_contra hlt
    have hle := le_throughUpdateId h hold habove' hage'
    have hfolded := hfolds.folded young hyoung
      ((hgone young hyoung).mpr (le_trans (Nat.le_of_not_lt hlt) hle)) habove
    have hold' := (mem_candidateRows.mp hfolded).2.2
    omega
  · intro hsplit
    refine ⟨fun row hrow hdel hid => ?_, ?_⟩
    · exact mem_candidateRows.mpr
        ⟨hrow, hid, age_lt_of_le hsplit h hrow hid ((hgone row hrow).mp hdel)⟩
    · rw [rebuild_load, rebuild_load, contents_compacted_read hsplit h]

/-- A compaction run alone to its commit deletes only what it folded just when it has nothing to
do, or no row too young to fold lies below one that is folded. -/
theorem deletes_only_folded_iff (docId : String) (now : Int) (t : Tables υ) :
    DeletesFolded (now - compactLagMs) t (maybeCompact docId none now t).1 ↔
      countUpdates t ≤ compactAfter ∨ AgesSplit (now - compactLagMs) t := by
  unfold maybeCompact
  by_cases hcount : countUpdates t ≤ compactAfter
  · rw [if_pos hcount]
    exact iff_of_true (deletesFolded_refl _ t) (.inl hcount)
  rw [if_neg hcount, or_iff_right hcount]
  dsimp only
  cases hthrough : (readForCompaction t (now - compactLagMs)).throughUpdateId with
  | none =>
      refine iff_of_true (deletesFolded_refl _ t) fun _ _ old hold _ habove _ hage => ?_
      have hmem := mem_candidateRows.mpr ⟨hold, habove, hage⟩
      rw [throughUpdateId_eq_none hthrough] at hmem
      exact absurd hmem List.not_mem_nil
  | some through =>
      obtain ⟨-, -, -, habove, -⟩ := throughUpdateId_eq_some hthrough
      have hadv : ∀ e, t.docSnapshot.map DocSnapshot.updateId = some e → e < through := by
        intro e he
        rwa [updateIdOrZero, he] at habove
      have hwins := compact_wins docId (foldCandidate (readForCompaction t (now - compactLagMs)))
        hadv
      have hexpected : (readForCompaction t (now - compactLagMs)).expectedUpdateId =
        t.docSnapshot.map DocSnapshot.updateId := rfl
      dsimp only
      rw [hexpected, hwins]
      exact deletesFolded_compacted_iff hthrough

/-- A row that was stamped late in front of 200 that were stamped early. -/
def overtaken : Tables Nat where
  docSnapshot := none
  docUpdate := ⟨1, {0}, 0⟩ :: (List.range 200).map fun i => ⟨i + 2, {i + 1}, -1⟩

theorem overtaken_ids : (overtaken.docUpdate.map DocUpdate.id).Nodup := by
  rw [overtaken, List.map_cons, List.map_map, List.nodup_cons]
  refine ⟨by simp, List.nodup_range.map fun i j h => ?_⟩
  simpa using h

/-- The late row is deleted unread. -/
theorem overtaken_is_deleted :
    ¬ ∀ (docId : String) (now : Int) (t : Tables Nat), (t.docUpdate.map DocUpdate.id).Nodup →
      DeletesFolded (now - compactLagMs) t (maybeCompact docId none now t).1 := by
  intro hclaim
  rcases (deletes_only_folded_iff "p:f" compactLagMs overtaken).mp
    (hclaim "p:f" compactLagMs overtaken overtaken_ids) with hfew | hsplit
  · have hcount : countUpdates overtaken = 201 := by simp [countUpdates, overtaken]
    rw [hcount] at hfew
    exact absurd hfew (by decide)
  · have hmem : ⟨2, {1}, -1⟩ ∈ overtaken.docUpdate := by
      refine List.mem_cons_of_mem _ (List.mem_map.mpr ⟨0, by simp, rfl⟩)
    have hlt := hsplit ⟨1, {0}, 0⟩ List.mem_cons_self ⟨2, {1}, -1⟩ hmem (by decide) (by decide)
      (by decide) (by decide)
    exact absurd hlt (by decide)

end CollabIDE.Persistence.Coverage
