import CollabIDE.Persistence.SharedLog
/-!
# Where an update is stored

An update that is appended once, and only while the document does not hold it, is in one row of the
log, and once that row is folded in the snapshot alone.
-/

namespace CollabIDE.Persistence.SharedLog

open CollabIDE.Persistence.DocStore CollabIDE.Persistence.Compactor

variable {υ : Type} [DecidableEq υ]

/-- No update of the snapshot is in a row, none is in two, and what a candidate folds is in no row
past its boundary. -/
structure Placed (s : State υ) : Prop where
  nonempty : ∀ row ∈ s.tables.docUpdate, row.update.Nonempty
  once : ∀ row ∈ s.tables.docUpdate, ∀ other ∈ s.tables.docUpdate, ∀ u ∈ row.update,
    u ∈ other.update → row.id = other.id
  folded : ∀ snap, s.tables.docSnapshot = some snap → ∀ u ∈ snap.snapshot,
    ∀ row ∈ s.tables.docUpdate, u ∉ row.update
  /-- A compaction has folded something. -/
  marked : ∀ snap, s.tables.docSnapshot = some snap → 0 < snap.updateId → snap.snapshot.Nonempty
  candidates : ∀ candidate ∈ s.candidates, ∀ through, candidate.throughUpdateId = some through →
    (foldCandidate candidate).Nonempty ∧
      ∀ u ∈ foldCandidate candidate, ∀ row ∈ s.tables.docUpdate, u ∈ row.update → row.id ≤ through

theorem placed_init (clock : Int) : Placed (init clock : State υ) where
  nonempty _ hrow := absurd hrow List.not_mem_nil
  once _ hrow := absurd hrow List.not_mem_nil
  folded _ hsnap := absurd hsnap.symm (Option.some_ne_none _)
  marked _ hsnap := absurd hsnap.symm (Option.some_ne_none _)
  candidates _ hmem := absurd hmem List.not_mem_nil

variable {s : State υ}

theorem Inv.row_subset (hs : Inv s) {row : DocUpdate υ} (hrow : row ∈ s.tables.docUpdate) :
    row.update ⊆ contents s.tables := fun _ hu =>
  mem_contents.mpr (.inr ⟨row, hrow, (hs.above row (List.mem_append_left _ hrow)).1, hu⟩)

theorem snapshot_subset {snap : DocSnapshot υ} (hsnap : s.tables.docSnapshot = some snap) :
    snap.snapshot ⊆ contents s.tables := fun _ hu =>
  mem_contents.mpr (.inl (by rw [hsnap]; exact hu))

theorem Placed.seed (h : Placed s) {tables : Tables υ} {update : Finset υ}
    (hsnap : tables.docSnapshot = some ⟨update, 0⟩) (hempty : tables.docUpdate = [])
    (seed : Option (Finset υ)) :
    Placed { s with tables, seed } where
  nonempty row hrow := by
    rw [hempty] at hrow
    exact absurd hrow List.not_mem_nil
  once row hrow := by
    rw [hempty] at hrow
    exact absurd hrow List.not_mem_nil
  folded _ _ _ _ row hrow := by
    rw [hempty] at hrow
    exact absurd hrow List.not_mem_nil
  marked snap hsome hpos := by
    rw [hsnap, Option.some.injEq] at hsome
    rw [← hsome] at hpos
    exact absurd hpos (Nat.lt_irrefl 0)
  candidates candidate hmem through hthrough := by
    refine ⟨(h.candidates candidate hmem through hthrough).1, fun u _ row hrow => ?_⟩
    rw [hempty] at hrow
    exact absurd hrow List.not_mem_nil

theorem Placed.commit (hs : Inv s) (h : Placed s) {row : DocUpdate υ} (hne : row.update.Nonempty)
    (hnew : ∀ u ∈ row.update, u ∉ contents s.tables) (inFlight : List (DocUpdate υ))
    (committed : Finset υ) :
    Placed { s with tables := appendUpdate s.tables row, inFlight, committed } where
  nonempty other hother := by
    rcases List.mem_append.mp hother with hold | hlast
    · exact h.nonempty other hold
    · exact List.mem_singleton.mp hlast ▸ hne
  once other hother third hthird u hu hu' := by
    rcases List.mem_append.mp hother with hold | hlast
    · rcases List.mem_append.mp hthird with hold' | hlast'
      · exact h.once other hold third hold' u hu hu'
      · rw [List.mem_singleton.mp hlast'] at hu'
        exact absurd (hs.row_subset hold hu) (hnew u hu')
    · rw [List.mem_singleton.mp hlast] at hu ⊢
      rcases List.mem_append.mp hthird with hold' | hlast'
      · exact absurd (hs.row_subset hold' hu') (hnew u hu)
      · rw [List.mem_singleton.mp hlast']
  folded snap hsnap u hu other hother := by
    rcases List.mem_append.mp hother with hold | hlast
    · exact h.folded snap hsnap u hu other hold
    · rw [List.mem_singleton.mp hlast]
      exact fun hmem => hnew u hmem (snapshot_subset (s := s) hsnap hu)
  marked := h.marked
  candidates candidate hmem through hthrough := by
    obtain ⟨hsome, hbound⟩ := h.candidates candidate hmem through hthrough
    refine ⟨hsome, fun u hu other hother hmem' => ?_⟩
    rcases List.mem_append.mp hother with hold | hlast
    · exact hbound u hu other hold hmem'
    · rw [List.mem_singleton.mp hlast] at hmem'
      exact absurd ((hs.sound candidate hmem).fold_subset hu) (hnew u hmem')

theorem Placed.read (h : Placed s) (cutoff : Int) :
    Placed { s with candidates := readForCompaction s.tables cutoff :: s.candidates } := by
  refine ⟨h.nonempty, h.once, h.folded, h.marked, fun candidate hmem through hthrough => ?_⟩
  rcases List.mem_cons.mp hmem with rfl | hold
  · obtain ⟨last, hlast, hid, habove, hage⟩ := throughUpdateId_eq_some hthrough
    have hlastfold : last.update ⊆ foldCandidate (readForCompaction s.tables cutoff) :=
      fun u hu => mem_foldCandidate.mpr (.inr ⟨last, hlast, hid.symm ▸ habove, hage, hu⟩)
    refine ⟨(h.nonempty last hlast).mono hlastfold, fun u hu row hrow hmem => ?_⟩
    rcases mem_foldCandidate.mp hu with hsnap | ⟨other, hother, hwater, hold, hmem'⟩
    · cases hstored : s.tables.docSnapshot with
      | none => simp [hstored] at hsnap
      | some snap =>
          rw [hstored] at hsnap
          exact absurd hmem (h.folded snap hstored u hsnap row hrow)
    · rw [h.once row hrow other hother u hmem hmem']
      exact le_throughUpdateId hthrough hother hwater hold
  · exact h.candidates candidate hold through hthrough

theorem Placed.compacted (h : Placed s) {candidate : CompactionCandidate υ} {through : Nat}
    (hmem : candidate ∈ s.candidates) (hthrough : candidate.throughUpdateId = some through) :
    Placed { s with tables := compacted s.tables (foldCandidate candidate) through } := by
  obtain ⟨hsome, hbound⟩ := h.candidates candidate hmem through hthrough
  refine ⟨fun row hrow => h.nonempty row (List.mem_of_mem_filter hrow),
    fun row hrow other hother => h.once row (List.mem_of_mem_filter hrow) other
      (List.mem_of_mem_filter hother), fun snap hsnap u hu row hrow hmem' => ?_,
    fun snap hsnap _ => ?_, fun candidate' hmem' through' hthrough' => ?_⟩
  · obtain rfl := Option.some.inj hsnap
    have hle := hbound u hu row (List.mem_of_mem_filter hrow) hmem'
    have hlt := of_decide_eq_true (List.mem_filter.mp hrow).2
    exact absurd hlt (Nat.not_lt_of_le hle)
  · obtain rfl := Option.some.inj hsnap
    exact hsome
  · obtain ⟨hsome', hbound'⟩ := h.candidates candidate' hmem' through' hthrough'
    exact ⟨hsome', fun u hu row hrow => hbound' u hu row (List.mem_of_mem_filter hrow)⟩

end CollabIDE.Persistence.SharedLog
