import CollabIDE.Persistence.DocStore
/-!
# Compaction

`compactor.ts`: the log past a threshold folds into one snapshot.  Everything
is read out of the log, so the lemmas here are about the candidate the store
returns and about when folding it leaves the stored document as it was.
-/

namespace CollabIDE.Persistence.Compactor

open CollabIDE.Lib CollabIDE.Persistence.DocStore

variable {υ : Type} [DecidableEq υ]

/-- Rows, not bytes: how much a cold load has to replay. -/
def compactAfter : Nat := 200

/-- How far behind now the fold boundary has to sit, in milliseconds. -/
def compactLagMs : Int := 30000

/-- The state through the compaction boundary, built from the log alone: the
snapshot first, then the tail in id order. -/
def foldCandidate (candidate : CompactionCandidate υ) : Finset υ :=
  let folded : Finset υ := match candidate.snapshot with
    | some snapshot => applyUpdate ∅ snapshot
    | none => ∅
  candidate.updates.foldl applyUpdate folded

/-- `maybeCompact` running alone from its count to its commit. -/
def maybeCompact (docId : String) (outage : Option (CompactStatement × String)) (now : Int)
    (t : Tables υ) : Tables υ × Except String Unit :=
  if countUpdates t ≤ compactAfter then (t, .ok ())
  else
    let candidate := readForCompaction t (now - compactLagMs)
    match candidate.throughUpdateId with
    -- every row is still inside the safety margin
    | none => (t, .ok ())
    | some through =>
      let r := compact docId outage t (foldCandidate candidate) through candidate.expectedUpdateId
      (r.1, r.2.map fun _ => ())

/-! ## What a candidate holds -/

theorem mem_foldCandidate {u : υ} {t : Tables υ} {cutoff : Int} :
    u ∈ foldCandidate (readForCompaction t cutoff) ↔
      u ∈ (t.docSnapshot.map DocSnapshot.snapshot).getD ∅ ∨
        ∃ row ∈ t.docUpdate, updateIdOrZero t.docSnapshot < row.id ∧
          row.createdAt < cutoff ∧ u ∈ row.update := by
  have hsnap : (match (readForCompaction t cutoff).snapshot with
      | some snapshot => applyUpdate ∅ snapshot
      | none => (∅ : Finset υ)) = (t.docSnapshot.map DocSnapshot.snapshot).getD ∅ := by
    obtain ⟨stored, rows⟩ := t
    cases stored <;> simp [readForCompaction, applyUpdate]
  rw [foldCandidate, mem_foldl_applyUpdate, hsnap]
  simp only [readForCompaction, List.mem_map, mem_orderByIdAsc, List.mem_filter,
    decide_eq_true_eq]
  constructor
  · rintro (hu | ⟨update, ⟨row, ⟨hrow, hid, hage⟩, rfl⟩, hu⟩)
    · exact Or.inl hu
    · exact Or.inr ⟨row, hrow, hid, hage, hu⟩
  · rintro (hu | ⟨row, hrow, hid, hage, hu⟩)
    · exact Or.inl hu
    · exact Or.inr ⟨row.update, ⟨row, ⟨hrow, hid, hage⟩, rfl⟩, hu⟩

theorem foldCandidate_subset (t : Tables υ) (cutoff : Int) :
    foldCandidate (readForCompaction t cutoff) ⊆ contents t := by
  intro u hu
  rcases mem_foldCandidate.mp hu with hu | ⟨row, hrow, hid, -, hu⟩
  · exact mem_contents.mpr (Or.inl hu)
  · exact mem_contents.mpr (Or.inr ⟨row, hrow, hid, hu⟩)

theorem snapshot_subset_foldCandidate (t : Tables υ) (cutoff : Int) :
    (t.docSnapshot.map DocSnapshot.snapshot).getD ∅ ⊆ foldCandidate (readForCompaction t cutoff) :=
  fun _ hu => mem_foldCandidate.mpr (Or.inl hu)

omit [DecidableEq υ] in
theorem throughUpdateId_eq_some {t : Tables υ} {cutoff : Int} {through : Nat}
    (h : (readForCompaction t cutoff).throughUpdateId = some through) :
    ∃ last ∈ t.docUpdate, last.id = through ∧ updateIdOrZero t.docSnapshot < through ∧
      last.createdAt < cutoff := by
  simp only [readForCompaction, Option.map_eq_some_iff] at h
  obtain ⟨last, hlast, rfl⟩ := h
  have hmem := (getLast_orderByIdAsc hlast).1
  simp only [List.mem_filter, decide_eq_true_eq] at hmem
  exact ⟨last, hmem.1, rfl, hmem.2.1, hmem.2.2⟩

omit [DecidableEq υ] in
theorem le_throughUpdateId {t : Tables υ} {cutoff : Int} {through : Nat}
    (h : (readForCompaction t cutoff).throughUpdateId = some through) {row : DocUpdate υ}
    (hrow : row ∈ t.docUpdate) (hid : updateIdOrZero t.docSnapshot < row.id)
    (hage : row.createdAt < cutoff) : row.id ≤ through := by
  simp only [readForCompaction, Option.map_eq_some_iff] at h
  obtain ⟨last, hlast, rfl⟩ := h
  refine (getLast_orderByIdAsc hlast).2 row ?_
  simp only [List.mem_filter, decide_eq_true_eq]
  exact ⟨hrow, hid, hage⟩

/-- With ages that follow the ids, the candidate covers every row up to its
boundary. -/
theorem update_subset_foldCandidate {t : Tables υ} {cutoff : Int} {through : Nat}
    (hmono : WatermarkLog.StampsMonotone DocUpdate.id DocUpdate.createdAt t.docUpdate)
    (h : (readForCompaction t cutoff).throughUpdateId = some through)
    {row : DocUpdate υ} (hrow : row ∈ t.docUpdate)
    (hid : updateIdOrZero t.docSnapshot < row.id) (hle : row.id ≤ through) :
    row.update ⊆ foldCandidate (readForCompaction t cutoff) := by
  intro u hu
  obtain ⟨last, hlast, rfl, -, hcut⟩ := throughUpdateId_eq_some h
  have hage : row.createdAt < cutoff :=
    WatermarkLog.stamp_lt_of_key_le hmono hrow hlast hle hcut
  exact mem_foldCandidate.mpr (Or.inr ⟨row, hrow, hid, hage, hu⟩)

end CollabIDE.Persistence.Compactor
