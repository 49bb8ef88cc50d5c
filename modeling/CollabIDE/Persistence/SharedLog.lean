import CollabIDE.Lib.Machine
import CollabIDE.Persistence.Compactor
/-!
# One log, many server instances

Any number of instances append to one document's log and compact it.  An
append allocates its id and its `createdAt` before it commits, so rows can
become visible out of id order; a candidate can be compacted long after it was
read.  Which instance holds which candidate is immaterial, so a state keeps
every candidate that was ever read.
-/

namespace CollabIDE.Persistence.SharedLog

open CollabIDE.Lib CollabIDE.Lib.Machine CollabIDE.Persistence.DocStore
open CollabIDE.Persistence.Compactor

variable {υ : Type} [DecidableEq υ]

structure State (υ : Type) where
  tables : Tables υ
  /-- Rows with an id and a `createdAt` whose insert has not committed. -/
  inFlight : List (DocUpdate υ)
  /-- The next value of the id sequence is at least this. -/
  nextId : Nat
  /-- The highest `createdAt` handed out so far. -/
  clock : Int
  candidates : List (CompactionCandidate υ)
  /-- The seed written for the document, if any. -/
  seed : Option (Finset υ)
  /-- Every update a committed append carried. -/
  committed : Finset υ

inductive Event (υ : Type)
  | seed (update : Finset υ)
  | allocate (row : DocUpdate υ)
  | commit (row : DocUpdate υ)
  | read (cutoff : Int)
  | compact (candidate : CompactionCandidate υ) (outage : Option (CompactStatement × String))

/-- A document nobody has opened yet. -/
def init (clock : Int) : State υ where
  tables := Tables.empty
  inFlight := []
  nextId := 1
  clock := clock
  candidates := []
  seed := none
  committed := ∅

/-- One event of the shared log.  The guards of `allocate` and `read` are the
assumptions on the database: ids grow and `createdAt` does not decrease in
allocation order, and no uncommitted row is older than the cutoff of a read. -/
def step (docId : String) (s : State υ) : Event υ → Option (State υ)
  | .seed update =>
    if s.seed = none ∧ s.tables.docSnapshot = none then
      some { s with tables := writeSnapshot s.tables update 0, seed := some update }
    else none
  | .allocate row =>
    if s.nextId ≤ row.id ∧ s.clock ≤ row.createdAt then
      some { s with
        inFlight := s.inFlight ++ [row]
        nextId := row.id + 1
        clock := row.createdAt }
    else none
  | .commit row =>
    if row ∈ s.inFlight then
      some { s with
        tables := appendUpdate s.tables row
        inFlight := s.inFlight.erase row
        committed := s.committed ∪ row.update }
    else none
  | .read cutoff =>
    if ∀ row ∈ s.inFlight, cutoff ≤ row.createdAt then
      some { s with candidates := readForCompaction s.tables cutoff :: s.candidates }
    else none
  | .compact candidate outage =>
    if candidate ∈ s.candidates then
      candidate.throughUpdateId.map fun through =>
        { s with tables := (DocStore.compact docId outage s.tables (foldCandidate candidate)
            through candidate.expectedUpdateId).1 }
    else none

/-- The watermark, 0 while there is no snapshot. -/
def watermark (t : Tables υ) : Nat := updateIdOrZero t.docSnapshot

/-- Every row that ever got an id and was not deleted. -/
def State.rows (s : State υ) : List (DocUpdate υ) := s.tables.docUpdate ++ s.inFlight

/-! ## The invariant -/

/-- What an outstanding candidate still guarantees.  Its token never runs ahead
of the stored watermark; while the token is current, the candidate covers every
row its boundary would delete. -/
structure Sound (s : State υ) (candidate : CompactionCandidate υ) : Prop where
  token_le : ∀ expected, candidate.expectedUpdateId = some expected →
    ∃ stored, s.tables.docSnapshot = some stored ∧ expected ≤ stored.updateId
  fold_subset : foldCandidate candidate ⊆ contents s.tables
  through_bound : ∀ through, candidate.throughUpdateId = some through →
    candidate.expectedUpdateId.getD 0 < through ∧ through < s.nextId ∧
      ∀ row ∈ s.inFlight, through < row.id
  covers : candidate.expectedUpdateId = s.tables.docSnapshot.map DocSnapshot.updateId →
    ∀ through, candidate.throughUpdateId = some through →
      (s.tables.docSnapshot.map DocSnapshot.snapshot).getD ∅ ⊆ foldCandidate candidate ∧
        ∀ row ∈ s.tables.docUpdate, row.id ≤ through → row.update ⊆ foldCandidate candidate

structure Inv (s : State υ) : Prop where
  contents_eq : contents s.tables = s.seed.getD ∅ ∪ s.committed
  watermark_lt : watermark s.tables < s.nextId
  above : ∀ row ∈ s.rows, watermark s.tables < row.id ∧ row.id < s.nextId
  stamped : ∀ row ∈ s.rows, row.createdAt ≤ s.clock
  mono : WatermarkLog.StampsMonotone DocUpdate.id DocUpdate.createdAt s.rows
  sound : ∀ candidate ∈ s.candidates, Sound s candidate

theorem inv_init (clock : Int) : Inv (init clock : State υ) where
  contents_eq := by
    ext u
    simp [init, Tables.empty, mem_contents]
  watermark_lt := by simp [init, watermark, Tables.empty, updateIdOrZero]
  above := by simp [init, State.rows, Tables.empty]
  stamped := by simp [init, State.rows, Tables.empty]
  mono := by simp [init, State.rows, Tables.empty, WatermarkLog.StampsMonotone]
  sound := by simp [init]

theorem inv_seed {s : State υ} {update : Finset υ} (hs : Inv s) (hseed : s.seed = none)
    (hnone : s.tables.docSnapshot = none) :
    Inv { s with tables := writeSnapshot s.tables update 0, seed := some update } where
  contents_eq := by
    rw [contents_writeSnapshot_zero update hnone, hs.contents_eq, hseed, Option.getD_none,
      Finset.empty_union, Finset.union_comm]
    rfl
  watermark_lt := by
    have h := hs.watermark_lt
    simp only [watermark, hnone] at h
    exact h
  above := by
    have h := hs.above
    simp only [watermark, hnone] at h
    exact h
  stamped := hs.stamped
  mono := hs.mono
  sound := by
    intro candidate hmem
    have hc := hs.sound candidate hmem
    -- a candidate read without a snapshot has no token, and its CAS fails from now on
    have htoken : candidate.expectedUpdateId = none := by
      cases he : candidate.expectedUpdateId with
      | none => rfl
      | some e =>
          obtain ⟨stored, hstored, -⟩ := hc.token_le e he
          simp [hnone] at hstored
    refine ⟨?_, ?_, hc.through_bound, ?_⟩
    · intro e he
      rw [htoken] at he
      cases he
    · rw [contents_writeSnapshot_zero update hnone]
      exact hc.fold_subset.trans Finset.subset_union_left
    · intro hcas
      simp [htoken, writeSnapshot] at hcas

theorem inv_allocate {s : State υ} {row : DocUpdate υ} (hs : Inv s) (hid : s.nextId ≤ row.id)
    (htime : s.clock ≤ row.createdAt) :
    Inv { s with
      inFlight := s.inFlight ++ [row]
      nextId := row.id + 1
      clock := row.createdAt } := by
  have hrows : ∀ r ∈ s.tables.docUpdate ++ (s.inFlight ++ [row]), r ∈ s.rows ∨ r = row := by
    intro r hr
    simpa [State.rows, or_assoc] using hr
  refine ⟨hs.contents_eq, ?_, ?_, ?_, ?_, ?_⟩
  · exact hs.watermark_lt.trans (Nat.lt_succ_of_le hid)
  · intro r hr
    rcases hrows r hr with hold | rfl
    · exact ⟨(hs.above r hold).1, (hs.above r hold).2.trans (Nat.lt_succ_of_le hid)⟩
    · exact ⟨hs.watermark_lt.trans_le hid, Nat.lt_succ_self _⟩
  · intro r hr
    rcases hrows r hr with hold | rfl
    · exact (hs.stamped r hold).trans htime
    · exact le_rfl
  · intro r hr r' hr' hle
    rcases hrows r hr with hold | rfl
    · rcases hrows r' hr' with hold' | rfl
      · exact hs.mono r hold r' hold' hle
      · exact (hs.stamped r hold).trans htime
    · rcases hrows r' hr' with hold' | rfl
      · exact absurd ((hid.trans hle).trans_lt (hs.above r' hold').2) (lt_irrefl _)
      · exact le_rfl
  · intro candidate hmem
    have hc := hs.sound candidate hmem
    refine ⟨hc.token_le, hc.fold_subset, ?_, hc.covers⟩
    intro through hthrough
    obtain ⟨htoken, hlt, hflight⟩ := hc.through_bound through hthrough
    refine ⟨htoken, hlt.trans (Nat.lt_succ_of_le hid), fun r hr => ?_⟩
    rcases List.mem_append.mp hr with hold | hnew
    · exact hflight r hold
    · rw [List.mem_singleton.mp hnew]
      exact hlt.trans_le hid

theorem inv_commit {s : State υ} {row : DocUpdate υ} (hs : Inv s) (hrow : row ∈ s.inFlight) :
    Inv { s with
      tables := appendUpdate s.tables row
      inFlight := s.inFlight.erase row
      committed := s.committed ∪ row.update } := by
  have hrowabove := hs.above row (List.mem_append_right _ hrow)
  have hsub : ∀ r ∈ (s.tables.docUpdate ++ [row]) ++ s.inFlight.erase row, r ∈ s.rows := by
    intro r hr
    simp only [List.mem_append, List.mem_singleton] at hr
    rcases hr with (hr | rfl) | hr
    · exact List.mem_append_left _ hr
    · exact List.mem_append_right _ hrow
    · exact List.mem_append_right _ (List.mem_of_mem_erase hr)
  have hcontents : contents (appendUpdate s.tables row) = contents s.tables ∪ row.update :=
    contents_appendUpdate hrowabove.1
  refine ⟨?_, hs.watermark_lt, fun r hr => hs.above r (hsub r hr),
    fun r hr => hs.stamped r (hsub r hr),
    fun r hr r' hr' => hs.mono r (hsub r hr) r' (hsub r' hr'), ?_⟩
  · rw [hcontents, hs.contents_eq, Finset.union_assoc]
  · intro candidate hmem
    have hc := hs.sound candidate hmem
    refine ⟨hc.token_le, ?_, ?_, ?_⟩
    · exact hc.fold_subset.trans (contents_subset_appendUpdate _ _)
    · intro through hthrough
      obtain ⟨htoken, hlt, hflight⟩ := hc.through_bound through hthrough
      exact ⟨htoken, hlt, fun r hr => hflight r (List.mem_of_mem_erase hr)⟩
    · intro hcas through hthrough
      obtain ⟨hbase, hcover⟩ := hc.covers hcas through hthrough
      refine ⟨hbase, fun r hr hle => ?_⟩
      rcases List.mem_append.mp hr with hold | hnew
      · exact hcover r hold hle
      · -- the committing row was in flight, hence above every boundary
        rw [List.mem_singleton.mp hnew] at hle
        exact absurd ((hc.through_bound through hthrough).2.2 row hrow) (Nat.not_lt_of_le hle)

theorem sound_read {s : State υ} {cutoff : Int} (hs : Inv s)
    (hage : ∀ row ∈ s.inFlight, cutoff ≤ row.createdAt) :
    Sound s (readForCompaction s.tables cutoff) := by
  have hmono : WatermarkLog.StampsMonotone DocUpdate.id DocUpdate.createdAt
      s.tables.docUpdate := fun r hr r' hr' =>
    hs.mono r (List.mem_append_left _ hr) r' (List.mem_append_left _ hr')
  refine ⟨?_, foldCandidate_subset _ _, ?_, ?_⟩
  · intro expected he
    simp only [readForCompaction, Option.map_eq_some_iff] at he
    obtain ⟨stored, hstored, rfl⟩ := he
    exact ⟨stored, hstored, le_rfl⟩
  · intro through hthrough
    obtain ⟨last, hlast, rfl, hadv, hcut⟩ := throughUpdateId_eq_some hthrough
    have hlast' : last ∈ s.rows := List.mem_append_left _ hlast
    refine ⟨hadv, (hs.above last hlast').2, fun r hr => ?_⟩
    exact WatermarkLog.key_lt_of_stamp hs.mono (List.mem_append_right _ hr) hlast' hcut (hage r hr)
  · intro _ through hthrough
    refine ⟨snapshot_subset_foldCandidate _ _, fun r hr hle => ?_⟩
    exact update_subset_foldCandidate hmono hthrough hr
      (hs.above r (List.mem_append_left _ hr)).1 hle

theorem inv_read {s : State υ} {cutoff : Int} (hs : Inv s)
    (hage : ∀ row ∈ s.inFlight, cutoff ≤ row.createdAt) :
    Inv { s with candidates := readForCompaction s.tables cutoff :: s.candidates } := by
  have hsame : ∀ {cs : List (CompactionCandidate υ)} {c}, Sound s c →
      Sound { s with candidates := cs } c := fun h => ⟨h.1, h.2, h.3, h.4⟩
  refine ⟨hs.contents_eq, hs.watermark_lt, hs.above, hs.stamped, hs.mono, ?_⟩
  intro candidate hmem
  rcases List.mem_cons.mp hmem with rfl | hold
  · exact hsame (sound_read hs hage)
  · exact hsame (hs.sound candidate hold)

/-- A compaction that wins keeps everything the document holds. -/
theorem contents_compact_won {s : State υ} {candidate : CompactionCandidate υ} {through : Nat}
    (hs : Inv s) (hmem : candidate ∈ s.candidates)
    (hthrough : candidate.throughUpdateId = some through)
    (hcas : candidate.expectedUpdateId = s.tables.docSnapshot.map DocSnapshot.updateId) :
    watermark s.tables < through ∧
      contents (compacted s.tables (foldCandidate candidate) through) = contents s.tables := by
  have hc := hs.sound candidate hmem
  obtain ⟨hbase, hcover⟩ := hc.covers hcas through hthrough
  have hadv : watermark s.tables < through := by
    have h := (hc.through_bound through hthrough).1
    rwa [hcas] at h
  exact ⟨hadv, contents_compacted hadv.le hc.fold_subset hbase
    fun row hrow _ hle => hcover row hrow hle⟩

theorem inv_compact_won {s : State υ} {candidate : CompactionCandidate υ} {through : Nat}
    (hs : Inv s) (hmem : candidate ∈ s.candidates)
    (hthrough : candidate.throughUpdateId = some through)
    (hcas : candidate.expectedUpdateId = s.tables.docSnapshot.map DocSnapshot.updateId) :
    Inv { s with tables := compacted s.tables (foldCandidate candidate) through } := by
  obtain ⟨hadv, hcontents⟩ := contents_compact_won hs hmem hthrough hcas
  obtain ⟨-, hnext, hflight⟩ := (hs.sound candidate hmem).through_bound through hthrough
  have hsub : ∀ r ∈ (compacted s.tables (foldCandidate candidate) through).docUpdate ++ s.inFlight,
      r ∈ s.rows ∧ through < r.id := by
    intro r hr
    rcases List.mem_append.mp hr with hkept | hfl
    · obtain ⟨hold, hid⟩ := List.mem_filter.mp hkept
      exact ⟨List.mem_append_left _ hold, by simpa using hid⟩
    · exact ⟨List.mem_append_right _ hfl, hflight r hfl⟩
  refine ⟨hcontents.trans hs.contents_eq, hnext, ?_, ?_, ?_, ?_⟩
  · exact fun r hr => ⟨(hsub r hr).2, (hs.above r (hsub r hr).1).2⟩
  · exact fun r hr => hs.stamped r (hsub r hr).1
  · exact fun r hr r' hr' => hs.mono r (hsub r hr).1 r' (hsub r' hr').1
  · intro c hc
    have hsound := hs.sound c hc
    refine ⟨?_, hcontents ▸ hsound.fold_subset, hsound.through_bound, ?_⟩
    · intro expected he
      obtain ⟨stored, hstored, hle⟩ := hsound.token_le expected he
      refine ⟨_, rfl, hle.trans ?_⟩
      have hwm : watermark s.tables = stored.updateId := by
        simp [watermark, updateIdOrZero, hstored]
      exact (hwm ▸ hadv).le
    · -- every token is at most the old watermark, so none is current any more
      intro hcurrent
      obtain ⟨stored, hstored, hle⟩ := hsound.token_le through hcurrent
      have hwm : watermark s.tables = stored.updateId := by
        simp [watermark, updateIdOrZero, hstored]
      exact absurd hadv (Nat.not_lt_of_le (hwm ▸ hle))

theorem inv_step {docId : String} {s s' : State υ} {e : Event υ} (hs : Inv s)
    (h : step docId s e = some s') : Inv s' := by
  cases e with
  | seed update =>
      simp only [step, Option.ite_none_right_eq_some, Option.some.injEq] at h
      obtain ⟨⟨hseed, hnone⟩, rfl⟩ := h
      exact inv_seed hs hseed hnone
  | allocate row =>
      simp only [step, Option.ite_none_right_eq_some, Option.some.injEq] at h
      obtain ⟨⟨hid, htime⟩, rfl⟩ := h
      exact inv_allocate hs hid htime
  | commit row =>
      simp only [step, Option.ite_none_right_eq_some, Option.some.injEq] at h
      obtain ⟨hrow, rfl⟩ := h
      exact inv_commit hs hrow
  | read cutoff =>
      simp only [step, Option.ite_none_right_eq_some, Option.some.injEq] at h
      obtain ⟨hage, rfl⟩ := h
      exact inv_read hs hage
  | compact candidate outage =>
      simp only [step, Option.ite_none_right_eq_some, Option.map_eq_some_iff] at h
      obtain ⟨hmem, through, hthrough, rfl⟩ := h
      rcases compact_cases docId outage s.tables (foldCandidate candidate) through
        candidate.expectedUpdateId with ⟨-, hcas, -, htab⟩ | ⟨-, htab⟩
      · rw [htab]
        exact inv_compact_won hs hmem hthrough hcas
      · rw [htab]
        exact hs

theorem inv_run {docId : String} {clock : Int} {events : List (Event υ)} {s : State υ}
    (h : run (step docId) (init clock) events = some s) : Inv s :=
  run_invariant (fun _ _ _ => inv_step) (inv_init clock) h

/-- Compaction by any number of instances loses nothing: the stored document is
the seed and every committed update, a winning compaction advances the
watermark, and any other outcome leaves both tables alone. -/
theorem compaction_loses_nothing (docId : String) (clock : Int) (events : List (Event υ))
    (s : State υ) (h : run (step docId) (init clock) events = some s) :
    contents s.tables = s.seed.getD ∅ ∪ s.committed ∧
      ∀ candidate ∈ s.candidates, ∀ through, candidate.throughUpdateId = some through →
        ∀ outage, ∀ r, r = DocStore.compact docId outage s.tables (foldCandidate candidate)
            through candidate.expectedUpdateId →
          (r.2 = .ok true → watermark s.tables < watermark r.1) ∧
            (r.2 ≠ .ok true → r.1 = s.tables) := by
  have hs := inv_run h
  refine ⟨hs.contents_eq, ?_⟩
  rintro candidate hmem through hthrough outage r rfl
  rcases compact_cases docId outage s.tables (foldCandidate candidate) through
    candidate.expectedUpdateId with ⟨hwon, hcas, -, htab⟩ | ⟨hlost, htab⟩
  · refine ⟨fun _ => ?_, fun hne => absurd hwon hne⟩
    rw [htab]
    exact (contents_compact_won hs hmem hthrough hcas).1
  · exact ⟨fun hwon => absurd hwon hlost, fun _ => htab⟩

/-- Two rows that become visible out of order, then a compaction past both. -/
theorem compaction_loses_nothing_two_rows :
    contents (⟨some ⟨{0, 1, 2}, 2⟩, []⟩ : Tables Nat) = {0} ∪ {2, 1} :=
  (compaction_loses_nothing "project:file" 0
    [.seed {0}, .allocate ⟨1, {1}, 0⟩, .allocate ⟨2, {2}, 1⟩, .commit ⟨2, {2}, 1⟩,
      .commit ⟨1, {1}, 0⟩, .read 5, .compact ⟨some {0}, some 0, [{1}, {2}], some 2⟩ none]
    ⟨⟨some ⟨{0, 1, 2}, 2⟩, []⟩, [], 3, 1, [⟨some {0}, some 0, [{1}, {2}], some 2⟩], some {0},
      {2, 1}⟩ rfl).1

end CollabIDE.Persistence.SharedLog
