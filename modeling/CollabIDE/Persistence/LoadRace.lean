import CollabIDE.Lib.Machine
import CollabIDE.Persistence.Compactor
/-!
# The two reads of `load`

`load` reads the snapshot and then the tail, outside any transaction.  Between
the two reads other instances may append rows and compact.  Appends never hurt:
they only lengthen the tail.  A compaction that commits in the gap does: the
tail is filtered by the watermark `load` read, and the rows folded above it are
gone.
-/

namespace CollabIDE.Persistence.LoadRace

open CollabIDE.Lib CollabIDE.Lib.Machine CollabIDE.Persistence.DocStore
open CollabIDE.Persistence.Compactor

variable {υ : Type} [DecidableEq υ]

/-- The stored document and the candidates other instances hold. -/
structure State (υ : Type) where
  tables : Tables υ
  candidates : List (CompactionCandidate υ)

/-- What other instances commit between the two reads. -/
inductive Event (υ : Type)
  | append (row : DocUpdate υ)
  | read (cutoff : Int)
  | compact (candidate : CompactionCandidate υ) (outage : Option (CompactStatement × String))

def step (docId : String) (s : State υ) : Event υ → Option (State υ)
  | .append row => some { s with tables := appendUpdate s.tables row }
  | .read cutoff =>
    some { s with candidates := readForCompaction s.tables cutoff :: s.candidates }
  | .compact candidate outage =>
    if candidate ∈ s.candidates then
      candidate.throughUpdateId.map fun through =>
        { s with tables := (DocStore.compact docId outage s.tables (foldCandidate candidate)
            through candidate.expectedUpdateId).1 }
    else none

/-- The result of a `load` whose first read saw `t` and whose second saw `t'`. -/
def loadAcross (t t' : Tables υ) : LoadedDoc υ :=
  loadedOf (findSnapshot t) (findTail t' (findSnapshot t))

/-- The updates the stored snapshot holds. -/
def snapshotUpdates (t : Tables υ) : Finset υ :=
  (t.docSnapshot.map DocSnapshot.snapshot).getD ∅

/-- The step is not a compaction that commits and folds a row the load of `t`
has yet to read, with an update its snapshot did not hold. -/
def Spares (docId : String) (t : Tables υ) (s : State υ) : Event υ → Prop
  | .compact candidate outage => ∀ through, candidate.throughUpdateId = some through →
      (DocStore.compact docId outage s.tables (foldCandidate candidate) through
        candidate.expectedUpdateId).2 = .ok true →
      ∀ row ∈ t.docUpdate, updateIdOrZero t.docSnapshot < row.id → row.id ≤ through →
        row.update ⊆ snapshotUpdates t
  | _ => True

/-- Every row of the tail of `t` is still there, or its snapshot has its updates. -/
def TailKept (t t' : Tables υ) : Prop :=
  ∀ row ∈ t.docUpdate, updateIdOrZero t.docSnapshot < row.id →
    row ∈ t'.docUpdate ∨ row.update ⊆ snapshotUpdates t

theorem step_tailKept {docId : String} {t : Tables υ} {s s' : State υ} {e : Event υ}
    (hs : TailKept t s.tables) (hok : Spares docId t s e) (h : step docId s e = some s') :
    TailKept t s'.tables := by
  cases e with
  | append row =>
      simp only [step, Option.some.injEq] at h
      subst h
      exact fun r hr hid => (hs r hr hid).imp_left fun hin => List.mem_append_left _ hin
  | read cutoff =>
      simp only [step, Option.some.injEq] at h
      exact h ▸ hs
  | compact candidate outage =>
      simp only [step, Option.ite_none_right_eq_some, Option.map_eq_some_iff] at h
      obtain ⟨-, through, hthrough, rfl⟩ := h
      intro r hr hid
      change r ∈ (DocStore.compact docId outage s.tables (foldCandidate candidate) through
        candidate.expectedUpdateId).1.docUpdate ∨ _
      rcases compact_cases docId outage s.tables (foldCandidate candidate) through
        candidate.expectedUpdateId with ⟨hwon, -, -, htab⟩ | ⟨-, htab⟩
      · by_cases hle : r.id ≤ through
        · exact Or.inr (hok through hthrough hwon r hr hid hle)
        · refine (hs r hr hid).imp_left fun hin => ?_
          rw [htab]
          exact List.mem_filter.mpr ⟨hin, decide_eq_true (Nat.lt_of_not_le hle)⟩
      · rw [htab]
        exact hs r hr hid

theorem run_tailKept {docId : String} {t : Tables υ} {candidates : List (CompactionCandidate υ)}
    {s : State υ} {events : List (Event υ)}
    (hok : Meets (step docId) (Spares docId t) ⟨t, candidates⟩ events)
    (h : run (step docId) ⟨t, candidates⟩ events = some s) : TailKept t s.tables :=
  run_invariant_of_meets (fun _ _ _ hs hok hstep => step_tailKept hs hok hstep)
    (fun _ hrow _ => Or.inl hrow) hok h

theorem contents_subset_loadAcross {t t' : Tables υ} (hkept : TailKept t t') :
    contents t ⊆ rebuild (loadAcross t t') := by
  intro u hu
  rw [loadAcross, mem_rebuild_loadedOf]
  rcases mem_contents.mp hu with hsnap | ⟨row, hrow, hid, hu⟩
  · exact Or.inl hsnap
  · rcases hkept row hrow hid with hin | hsub
    · exact Or.inr ⟨row, hin, hid, hu⟩
    · exact Or.inl (hsub hu)

theorem snapshotUpdates_subset_loadAcross (t t' : Tables υ) :
    snapshotUpdates t ⊆ rebuild (loadAcross t t') := by
  intro u hu
  rw [loadAcross, mem_rebuild_loadedOf]
  exact Or.inl hu

theorem loadAcross_compacted {t : Tables υ} {cutoff : Int} {through : Nat}
    (hage : ∀ row ∈ t.docUpdate, row.createdAt < cutoff)
    (hthrough : (readForCompaction t cutoff).throughUpdateId = some through)
    (snapshot : Finset υ) :
    rebuild (loadAcross t (compacted t snapshot through)) = snapshotUpdates t := by
  simp only [readForCompaction, Option.map_eq_some_iff] at hthrough
  obtain ⟨last, hlast, rfl⟩ := hthrough
  obtain ⟨-, hmax⟩ := getLast_orderByIdAsc hlast
  apply Finset.Subset.antisymm
  · intro u hu
    rw [loadAcross, mem_rebuild_loadedOf] at hu
    rcases hu with hu | ⟨row, hrow, hid, -⟩
    · exact hu
    · obtain ⟨hold, habove⟩ := List.mem_filter.mp hrow
      have hle : row.id ≤ last.id := hmax row (by simpa using ⟨hold, hid, hage row hold⟩)
      simp only [decide_eq_true_eq] at habove
      exact absurd habove (Nat.not_lt_of_le hle)
  · exact snapshotUpdates_subset_loadAcross _ _

/-- A later moment than any stored `createdAt`. -/
def afterAll (t : Tables υ) : Int :=
  (t.docUpdate.map DocUpdate.createdAt).foldr max 0 + 1

omit [DecidableEq υ] in
theorem createdAt_lt_afterAll {t : Tables υ} {row : DocUpdate υ} (hrow : row ∈ t.docUpdate) :
    row.createdAt < afterAll t := by
  have hle : ∀ {l : List Int} {x : Int}, x ∈ l → x ≤ l.foldr max 0 := by
    intro l x hx
    induction l with
    | nil => cases hx
    | cons y l ih =>
        rcases List.mem_cons.mp hx with rfl | hx
        · exact le_max_left _ _
        · exact (ih hx).trans (le_max_right _ _)
  exact Int.lt_add_one_of_le (hle (List.mem_map_of_mem hrow))

/-- The interleaving that opens the hole: another instance compacts everything
`load` has yet to read. -/
def compactAll (t : Tables υ) : List (Event υ) :=
  [.read (afterAll t), .compact (readForCompaction t (afterAll t)) none]

theorem run_compactAll (docId : String) {t : Tables υ} {row : DocUpdate υ}
    (hrow : row ∈ t.docUpdate) (hid : updateIdOrZero t.docSnapshot < row.id)
    (candidates : List (CompactionCandidate υ)) :
    ∃ s, run (step docId) ⟨t, candidates⟩ (compactAll t) = some s ∧
      rebuild (loadAcross t s.tables) = snapshotUpdates t := by
  obtain ⟨through, hthrough⟩ :
      ∃ through, (readForCompaction t (afterAll t)).throughUpdateId = some through := by
    have hmem : row ∈ orderByIdAsc (t.docUpdate.filter fun r =>
        updateIdOrZero t.docSnapshot < r.id ∧ r.createdAt < afterAll t) := by
      simpa using ⟨hrow, hid, createdAt_lt_afterAll hrow⟩
    obtain ⟨last, hlast⟩ := List.getLast?_isSome.mpr (List.ne_nil_of_mem hmem) |>
      Option.isSome_iff_exists.mp
    exact ⟨last.id, congrArg (Option.map DocUpdate.id) hlast⟩
  have hadv : ∀ e, t.docSnapshot.map DocSnapshot.updateId = some e → e < through := by
    intro e he
    obtain ⟨-, -, -, hlt, -⟩ := throughUpdateId_eq_some hthrough
    simpa [updateIdOrZero, he] using hlt
  have hwin := compact_wins docId (foldCandidate (readForCompaction t (afterAll t))) hadv
  refine ⟨⟨compacted t (foldCandidate (readForCompaction t (afterAll t))) through,
    readForCompaction t (afterAll t) :: candidates⟩, ?_,
    loadAcross_compacted (fun _ h => createdAt_lt_afterAll h) hthrough _⟩
  simp only [compactAll, run_cons, step, Option.bind_some, List.mem_cons, true_or, if_true,
    hthrough, Option.map_some, run_nil]
  rw [show (readForCompaction t (afterAll t)).expectedUpdateId =
    t.docSnapshot.map DocSnapshot.updateId from rfl, hwin]

theorem exists_missed (docId : String) {t : Tables υ} {row : DocUpdate υ} {u : υ}
    (hrow : row ∈ t.docUpdate) (hid : updateIdOrZero t.docSnapshot < row.id)
    (hu : u ∉ snapshotUpdates t) :
    ∃ s, run (step docId) ⟨t, []⟩ (compactAll t) = some s ∧
      u ∉ rebuild (loadAcross t s.tables) := by
  obtain ⟨s, hrun, heq⟩ := run_compactAll docId hrow hid []
  exact ⟨s, hrun, by rwa [heq]⟩

/-- What `load` guarantees across its gap: in every interleaving in which no
compaction folds what it has yet to read, nothing stored before is missing; and
the documents for which every interleaving is safe are exactly those whose tail
holds nothing beyond the snapshot. -/
theorem load_keeps_stored_iff (docId : String) :
    (∀ (t : Tables υ) candidates events s,
      run (step docId) ⟨t, candidates⟩ events = some s →
      Meets (step docId) (Spares docId t) ⟨t, candidates⟩ events →
        contents t ⊆ rebuild (loadAcross t s.tables)) ∧
      ∀ t : Tables υ, (∀ candidates events s,
        run (step docId) ⟨t, candidates⟩ events = some s →
          contents t ⊆ rebuild (loadAcross t s.tables)) ↔ contents t ⊆ snapshotUpdates t := by
  refine ⟨fun t candidates events s h hok => ?_, fun t => ⟨fun hall u hu => ?_, fun hsub => ?_⟩⟩
  · exact contents_subset_loadAcross (run_tailKept hok h)
  · rcases mem_contents.mp hu with hsnap | ⟨row, hrow, hid, -⟩
    · exact hsnap
    · by_contra hsnap
      obtain ⟨s, hrun, hmissed⟩ := exists_missed docId hrow hid hsnap
      exact hmissed (hall [] (compactAll t) s hrun hu)
  · intro candidates events s _
    exact hsub.trans (snapshotUpdates_subset_loadAcross t s.tables)

/-- A snapshot, a row with what it holds already, and a row too young to fold. -/
def resent : Tables Nat := ⟨some ⟨{7}, 1⟩, [⟨2, {7}, 0⟩, ⟨3, {8}, 5⟩]⟩

/-- In the gap a row is appended, and a compaction folds the row that adds nothing. -/
theorem load_keeps_stored_iff_resent :
    run (step "project:file") ⟨resent, []⟩ [.append ⟨4, {9}, 6⟩, .read 3,
        .compact ⟨some {7}, some 1, [{7}], some 2⟩ none] =
      some ⟨⟨some ⟨{7}, 2⟩, [⟨3, {8}, 5⟩, ⟨4, {9}, 6⟩]⟩, [⟨some {7}, some 1, [{7}], some 2⟩]⟩ ∧
    contents resent ⊆
      rebuild (loadAcross resent ⟨some ⟨{7}, 2⟩, [⟨3, {8}, 5⟩, ⟨4, {9}, 6⟩]⟩) := by
  have hrun : run (step "project:file") ⟨resent, []⟩ [.append ⟨4, {9}, 6⟩, .read 3,
      .compact ⟨some {7}, some 1, [{7}], some 2⟩ none] =
      some ⟨⟨some ⟨{7}, 2⟩, [⟨3, {8}, 5⟩, ⟨4, {9}, 6⟩]⟩, [⟨some {7}, some 1, [{7}], some 2⟩]⟩ :=
    rfl
  refine ⟨hrun, (load_keeps_stored_iff "project:file").1 resent [] _ _ hrun ?_⟩
  refine ⟨trivial, fun _ _ => ⟨trivial, fun _ _ => ⟨fun through hthrough _ row hrow _ hle => ?_,
    fun _ _ => trivial⟩⟩⟩
  obtain rfl := Option.some.inj hthrough
  revert hrow hle
  simp only [resent, List.mem_cons, List.not_mem_nil, or_false]
  rintro (rfl | rfl) hle
  · decide
  · exact absurd hle (by decide)

/-- A log long enough for a compaction: `rows` rows of one update each. -/
def longLog (rows : Nat) : Tables Nat where
  docSnapshot := none
  docUpdate := (List.range rows).map fun n => ⟨n + 1, {n}, 0⟩

theorem longLog_misses {rows : Nat} (hrows : 0 < rows) (docId : String) :
    ¬ ∀ candidates events s, run (step docId) ⟨longLog rows, candidates⟩ events = some s →
      contents (longLog rows) ⊆ rebuild (loadAcross (longLog rows) s.tables) := by
  intro hall
  have hrow : (⟨1, {0}, 0⟩ : DocUpdate Nat) ∈ (longLog rows).docUpdate :=
    List.mem_map.mpr ⟨0, List.mem_range.mpr hrows, rfl⟩
  have hid : updateIdOrZero (longLog rows).docSnapshot < 1 := Nat.zero_lt_one
  have hmem : 0 ∈ contents (longLog rows) :=
    mem_contents.mpr (Or.inr ⟨_, hrow, hid, Finset.mem_singleton_self 0⟩)
  obtain ⟨s, hrun, hmissed⟩ := exists_missed (u := 0) docId hrow hid (Finset.notMem_empty 0)
  exact hmissed (hall [] (compactAll (longLog rows)) s hrun hmem)

/-- With 201 rows, enough for `maybeCompact` to act, one compaction in the gap
loses the whole tail. -/
theorem load_misses_compacted_rows :
    ¬ ∀ candidates events s,
      run (step "project:file") ⟨longLog 201, candidates⟩ events = some s →
        contents (longLog 201) ⊆ rebuild (loadAcross (longLog 201) s.tables) :=
  longLog_misses (Nat.zero_lt_succ 200) "project:file"

end CollabIDE.Persistence.LoadRace
