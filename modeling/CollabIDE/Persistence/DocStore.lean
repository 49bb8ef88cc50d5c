import CollabIDE.Lib.WatermarkLog
import Mathlib.Data.Finset.Basic
import Mathlib.Data.Finset.Lattice.Lemmas
import Mathlib.Data.List.Sort
/-!
# The document store over PostgreSQL

The rows the `DocUpdate` and `DocSnapshot` tables hold for one document, and
the operations of `postgresDocStore` on them.  Every query of the store filters
on `docId`, so the rows of one document are all an operation can see or touch.
Updates are opaque to the store; a document is the set of updates applied to
it, and applying an update is set union.
-/

namespace CollabIDE.Persistence.DocStore

open CollabIDE.Lib

variable {υ : Type}

/-- `Y.applyUpdate`: the document after applying an update. -/
def applyUpdate [DecidableEq υ] (ydoc update : Finset υ) : Finset υ := ydoc ∪ update

/-- A row of the append-only update log. -/
structure DocUpdate (υ : Type) where
  id : Nat
  update : Finset υ
  createdAt : Int
  deriving DecidableEq

/-- The one snapshot row of a document. -/
structure DocSnapshot (υ : Type) where
  snapshot : Finset υ
  /-- Highest `DocUpdate.id` folded into this snapshot. -/
  updateId : Nat
  deriving DecidableEq

/-- Both tables, restricted to one `docId`.  The unique index on
`DocSnapshot.docId` leaves room for one snapshot only. -/
structure Tables (υ : Type) where
  docSnapshot : Option (DocSnapshot υ)
  docUpdate : List (DocUpdate υ)
  deriving DecidableEq

/-- A document that was never persisted. -/
def Tables.empty : Tables υ := ⟨none, []⟩

/-- What `load` returns; the caller applies it. -/
structure LoadedDoc (υ : Type) where
  «exists» : Bool
  snapshot : Option (Finset υ)
  updates : List (Finset υ)
  lastUpdateId : Option Nat
  deriving DecidableEq

/-- What a compaction may fold, and the token that proves nothing moved. -/
structure CompactionCandidate (υ : Type) where
  snapshot : Option (Finset υ)
  expectedUpdateId : Option Nat
  updates : List (Finset υ)
  throughUpdateId : Option Nat
  deriving DecidableEq

instance [DecidableEq υ] : LawfulBEq (CompactionCandidate υ) := inferInstance

/-- `snapshot?.updateId ?? 0n`: ids start at 1, so 0 stands for no snapshot. -/
def updateIdOrZero (snapshot : Option (DocSnapshot υ)) : Nat :=
  (snapshot.map DocSnapshot.updateId).getD 0

/-- `orderBy: { id: 'asc' }`. -/
def orderByIdAsc (rows : List (DocUpdate υ)) : List (DocUpdate υ) :=
  rows.insertionSort fun a b => a.id ≤ b.id

/-! ## load -/

/-- The first read of `load`. -/
def findSnapshot (t : Tables υ) : Option (DocSnapshot υ) := t.docSnapshot

/-- The second read of `load`, filtered by the snapshot the first one returned. -/
def findTail (t : Tables υ) (snapshot : Option (DocSnapshot υ)) : List (DocUpdate υ) :=
  orderByIdAsc (t.docUpdate.filter fun row => updateIdOrZero snapshot < row.id)

/-- The result `load` builds from its two reads. -/
def loadedOf (snapshot : Option (DocSnapshot υ)) (rows : List (DocUpdate υ)) : LoadedDoc υ where
  «exists» := snapshot.isSome || rows.length > 0
  snapshot := snapshot.map DocSnapshot.snapshot
  updates := rows.map DocUpdate.update
  lastUpdateId := (rows.getLast?.map DocUpdate.id).or (snapshot.map DocSnapshot.updateId)

/-- `load` when nothing commits between its two reads. -/
def load (t : Tables υ) : LoadedDoc υ :=
  loadedOf (findSnapshot t) (findTail t (findSnapshot t))

/-- What a caller rebuilds: the snapshot, then every update in order. -/
def rebuild [DecidableEq υ] (loaded : LoadedDoc υ) : Finset υ :=
  loaded.updates.foldl applyUpdate (loaded.snapshot.getD ∅)

/-! ## The writes -/

/-- `appendUpdate`: one row, bytes untouched.  The id comes from the sequence
and the time from the column default. -/
def appendUpdate (t : Tables υ) (row : DocUpdate υ) : Tables υ :=
  { t with docUpdate := t.docUpdate ++ [row] }

/-- An unconditional upsert of the snapshot row. -/
def writeSnapshot (t : Tables υ) (snapshot : Finset υ) (throughUpdateId : Nat) : Tables υ :=
  { t with docSnapshot := some ⟨snapshot, throughUpdateId⟩ }

/-- Both reads in one RepeatableRead transaction. -/
def readForCompaction (t : Tables υ) (cutoff : Int) : CompactionCandidate υ :=
  let snapshot := t.docSnapshot
  let rows := orderByIdAsc (t.docUpdate.filter fun row =>
    updateIdOrZero snapshot < row.id ∧ row.createdAt < cutoff)
  { snapshot := snapshot.map DocSnapshot.snapshot
    expectedUpdateId := snapshot.map DocSnapshot.updateId
    updates := rows.map DocUpdate.update
    throughUpdateId := rows.getLast?.map DocUpdate.id }

/-- What a statement of a transaction can fail with.  Prisma reports a
violated unique index as `P2002`. -/
inductive DbError
  | P2002
  | other (message : String)
  deriving DecidableEq

/-- `isUniqueViolation`. -/
def isUniqueViolation : DbError → Bool
  | .P2002 => true
  | .other _ => false

/-- The statements of `compact`'s transaction, for choosing which of them the
database fails. -/
inductive CompactStatement
  | writeSnapshot
  | deleteMany
  | commit
  deriving DecidableEq

/-- A transaction body: an error discards the tables it had changed. -/
abbrev Tx (υ : Type) := StateT (Tables υ) (Except DbError)

/-- The database answering a statement with an error of its own. -/
def guardOutage (outage : Option (CompactStatement × String)) (stmt : CompactStatement) :
    Tx υ Unit :=
  match outage with
  | some (failing, message) => if failing = stmt then throw (.other message) else pure ()
  | none => pure ()

/-- `docSnapshot.create`: the unique index refuses a second row. -/
def docSnapshotCreate (row : DocSnapshot υ) : Tx υ Unit := do
  let t ← get
  match t.docSnapshot with
  | some _ => throw .P2002
  | none => set { t with docSnapshot := some row }

/-- `docSnapshot.updateMany where updateId = expected`, returning the count. -/
def docSnapshotUpdateMany (expected : Nat) (row : DocSnapshot υ) : Tx υ Nat := do
  let t ← get
  if t.docSnapshot.map DocSnapshot.updateId = some expected then
    set { t with docSnapshot := some row }
    return 1
  else
    return 0

/-- `docUpdate.deleteMany where id <= throughUpdateId`. -/
def docUpdateDeleteMany (throughUpdateId : Nat) : Tx υ Unit :=
  modify fun t => { t with docUpdate := t.docUpdate.filter fun row => throughUpdateId < row.id }

/-- The compare-and-set of `compact`: with no snapshot to compare against, the
unique index is the comparison. -/
def compareAndSet (expectedUpdateId : Option Nat) (row : DocSnapshot υ) : Tx υ Bool :=
  match expectedUpdateId with
  | none => do
    docSnapshotCreate row
    return true
  | some expected => do
    let count ← docSnapshotUpdateMany expected row
    return count = 1

/-- The body of `compact`'s transaction. -/
def compactTx (outage : Option (CompactStatement × String)) (snapshot : Finset υ)
    (throughUpdateId : Nat) (expectedUpdateId : Option Nat) : Tx υ Bool := do
  guardOutage outage .writeSnapshot
  let won ← compareAndSet expectedUpdateId ⟨snapshot, throughUpdateId⟩
  if won = false then return false
  guardOutage outage .deleteMany
  docUpdateDeleteMany throughUpdateId
  guardOutage outage .commit
  return true

/-- The tables after `compact` and what it returned or threw. -/
def compact (docId : String) (outage : Option (CompactStatement × String)) (t : Tables υ)
    (snapshot : Finset υ) (throughUpdateId : Nat) (expectedUpdateId : Option Nat) :
    Tables υ × Except String Bool :=
  match expectedUpdateId with
  | some expected =>
    if throughUpdateId ≤ expected then
      (t, .error (s!"compact({docId}): boundary {throughUpdateId} " ++
        s!"does not advance past {expected}"))
    else commitTx ((compactTx outage snapshot throughUpdateId (some expected)).run t)
  | none => commitTx ((compactTx outage snapshot throughUpdateId none).run t)
where
  /-- Rolls back on an error; a unique violation is a lost race, not a failure. -/
  commitTx : Except DbError (Bool × Tables υ) → Tables υ × Except String Bool
    | .ok (won, t') => (t', .ok won)
    | .error .P2002 => (t, .ok false)
    | .error (.other message) => (t, .error message)

/-- `countUpdates`. -/
def countUpdates (t : Tables υ) : Nat := t.docUpdate.length

/-- `deleteDoc`: the snapshot and every update, gone. -/
def deleteDoc (_ : Tables υ) : Tables υ := Tables.empty

/-! ## Lemmas for the reads -/

@[simp] theorem mem_orderByIdAsc {rows : List (DocUpdate υ)} {row : DocUpdate υ} :
    row ∈ orderByIdAsc rows ↔ row ∈ rows :=
  List.mem_insertionSort _

theorem getLast_orderByIdAsc {rows : List (DocUpdate υ)} {last : DocUpdate υ}
    (h : (orderByIdAsc rows).getLast? = some last) :
    last ∈ rows ∧ ∀ row ∈ rows, row.id ≤ last.id := by
  have hmem : last ∈ orderByIdAsc rows := List.mem_of_getLast? h
  refine ⟨mem_orderByIdAsc.mp hmem, fun row hrow => ?_⟩
  have hsorted : (orderByIdAsc rows).Pairwise (fun a b => a.id ≤ b.id) :=
    List.pairwise_insertionSort (fun a b : DocUpdate υ => a.id ≤ b.id) rows
  obtain ⟨init, hinit⟩ := List.getLast?_eq_some_iff.mp h
  have hrow' : row ∈ init ++ [last] := hinit ▸ mem_orderByIdAsc.mpr hrow
  rw [hinit, List.pairwise_append] at hsorted
  rcases List.mem_append.mp hrow' with hin | hin
  · exact hsorted.2.2 row hin last (List.mem_singleton_self last)
  · rw [List.mem_singleton.mp hin]

theorem load_exists_iff {t : Tables υ} :
    (load t).exists = true ↔
      t.docSnapshot.isSome ∨ ∃ row ∈ t.docUpdate, updateIdOrZero t.docSnapshot < row.id := by
  change (loadedOf t.docSnapshot (findTail t t.docSnapshot)).exists = true ↔ _
  simp only [loadedOf, findTail, Bool.or_eq_true, decide_eq_true_eq, gt_iff_lt,
    List.length_pos_iff_exists_mem, mem_orderByIdAsc, List.mem_filter]

section Contents

variable [DecidableEq υ]

/-- The updates a document's stored rows hold: the snapshot and the rows above
its watermark. -/
def contents (t : Tables υ) : Finset υ :=
  WatermarkLog.contents DocUpdate.id DocUpdate.update
    ((t.docSnapshot.map DocSnapshot.snapshot).getD ∅) (updateIdOrZero t.docSnapshot) t.docUpdate

theorem mem_foldl_applyUpdate {u : υ} {base : Finset υ} {updates : List (Finset υ)} :
    u ∈ updates.foldl applyUpdate base ↔ u ∈ base ∨ ∃ update ∈ updates, u ∈ update := by
  induction updates generalizing base with
  | nil => simp
  | cons update updates ih =>
      rw [List.foldl_cons, ih]
      simp only [applyUpdate, Finset.mem_union, List.exists_mem_cons_iff, or_assoc]

theorem mem_foldl_update {u : υ} {base : Finset υ} {rows : List (DocUpdate υ)} :
    u ∈ (rows.map DocUpdate.update).foldl applyUpdate base ↔
      u ∈ base ∨ ∃ row ∈ rows, u ∈ row.update := by
  rw [mem_foldl_applyUpdate]
  simp only [List.mem_map, exists_exists_and_eq_and]

theorem mem_contents {u : υ} {t : Tables υ} :
    u ∈ contents t ↔ u ∈ (t.docSnapshot.map DocSnapshot.snapshot).getD ∅ ∨
      ∃ row ∈ t.docUpdate, updateIdOrZero t.docSnapshot < row.id ∧ u ∈ row.update := by
  change u ∈ List.foldl applyUpdate _ (List.map DocUpdate.update _) ↔ _
  rw [mem_foldl_update]
  simp only [WatermarkLog.mem_above, and_assoc]

/-- Rebuilding from a snapshot and a tail, each read at its own moment. -/
theorem mem_rebuild_loadedOf {u : υ} {snapshot : Option (DocSnapshot υ)} {t : Tables υ} :
    u ∈ rebuild (loadedOf snapshot (findTail t snapshot)) ↔
      u ∈ (snapshot.map DocSnapshot.snapshot).getD ∅ ∨
        ∃ row ∈ t.docUpdate, updateIdOrZero snapshot < row.id ∧ u ∈ row.update := by
  rw [rebuild, loadedOf, mem_foldl_update]
  simp only [findTail, mem_orderByIdAsc, List.mem_filter, decide_eq_true_eq, and_assoc]

theorem rebuild_load (t : Tables υ) : rebuild (load t) = contents t := by
  ext u
  rw [load, mem_rebuild_loadedOf, mem_contents, findSnapshot]

theorem contents_appendUpdate {t : Tables υ} {row : DocUpdate υ}
    (hid : updateIdOrZero t.docSnapshot < row.id) :
    contents (appendUpdate t row) = contents t ∪ row.update :=
  WatermarkLog.contents_append_of_lt hid

theorem contents_subset_appendUpdate (t : Tables υ) (row : DocUpdate υ) :
    contents t ⊆ contents (appendUpdate t row) :=
  WatermarkLog.contents_mono fun _ h => List.mem_append_left [row] h

theorem contents_appendUpdate_subset (t : Tables υ) (row : DocUpdate υ) :
    contents (appendUpdate t row) ⊆ contents t ∪ row.update := by
  intro u hu
  rw [Finset.mem_union]
  rcases mem_contents.mp hu with hsnap | ⟨other, hother, hid, hu⟩
  · exact Or.inl (mem_contents.mpr (Or.inl hsnap))
  · rcases List.mem_append.mp hother with hold | hlast
    · exact Or.inl (mem_contents.mpr (Or.inr ⟨other, hold, hid, hu⟩))
    · exact Or.inr (List.mem_singleton.mp hlast ▸ hu)

/-- The first snapshot of a document, written at watermark 0, hides no row. -/
theorem contents_writeSnapshot_zero {t : Tables υ} (snapshot : Finset υ)
    (hnone : t.docSnapshot = none) :
    contents (writeSnapshot t snapshot 0) = contents t ∪ snapshot := by
  ext u
  simp only [mem_contents, writeSnapshot, hnone, updateIdOrZero, Option.map_some, Option.map_none,
    Option.getD_some, Option.getD_none, Finset.mem_union, Finset.notMem_empty, false_or]
  exact or_comm

theorem contents_of_not_exists {t : Tables υ} (h : (load t).exists ≠ true) : contents t = ∅ := by
  rw [ne_eq, load_exists_iff, not_or, Option.not_isSome_iff_eq_none] at h
  refine Finset.eq_empty_of_forall_notMem fun u hu => ?_
  rcases mem_contents.mp hu with hsnap | ⟨row, hrow, hid, -⟩
  · simp [h.1] at hsnap
  · exact h.2 ⟨row, hrow, hid⟩

theorem contents_writeSnapshot_subset {t : Tables υ} (snapshot : Finset υ)
    (hzero : updateIdOrZero t.docSnapshot = 0) :
    contents (writeSnapshot t snapshot 0) ⊆ contents t ∪ snapshot := by
  intro u hu
  rw [Finset.mem_union]
  rcases mem_contents.mp hu with hsnap | ⟨row, hrow, hid, hu⟩
  · exact Or.inr hsnap
  · exact Or.inl (mem_contents.mpr (Or.inr ⟨row, hrow, hzero.symm ▸ hid, hu⟩))

end Contents

/-! ## Lemmas for compaction -/

/-- What a won compaction leaves behind. -/
def compacted (t : Tables υ) (snapshot : Finset υ) (throughUpdateId : Nat) : Tables υ where
  docSnapshot := some ⟨snapshot, throughUpdateId⟩
  docUpdate := t.docUpdate.filter fun row => throughUpdateId < row.id

/-- A compaction keeps what is stored when its snapshot extends the stored one,
holds nothing else, and covers every row it deletes. -/
theorem contents_compacted [DecidableEq υ] {t : Tables υ} {snapshot : Finset υ} {through : Nat}
    (hadv : updateIdOrZero t.docSnapshot ≤ through) (hsound : snapshot ⊆ contents t)
    (hbase : (t.docSnapshot.map DocSnapshot.snapshot).getD ∅ ⊆ snapshot)
    (hcover : ∀ row ∈ t.docUpdate, updateIdOrZero t.docSnapshot < row.id →
      row.id ≤ through → row.update ⊆ snapshot) :
    contents (compacted t snapshot through) = contents t :=
  WatermarkLog.contents_checkpoint hadv hsound hbase hcover

theorem guardOutage_bind {β : Type} (outage : Option (CompactStatement × String))
    (stmt : CompactStatement) (next : Unit → Tx υ β) (t : Tables υ) :
    (guardOutage outage stmt >>= next).run t = (next ()).run t ∨
      ∃ e, (guardOutage outage stmt >>= next).run t = .error e := by
  cases outage with
  | none => exact Or.inl rfl
  | some o =>
      by_cases ho : o.1 = stmt
      · exact Or.inr ⟨.other o.2, by simp [guardOutage, ho]; rfl⟩
      · exact Or.inl (by simp [guardOutage, ho])

theorem docSnapshotUpdateMany_run (expected : Nat) (row : DocSnapshot υ) (t : Tables υ) :
    (docSnapshotUpdateMany expected row).run t =
      if t.docSnapshot.map DocSnapshot.updateId = some expected then
        .ok (1, { t with docSnapshot := some row })
      else .ok (0, t) := by
  obtain ⟨stored, rows⟩ := t
  by_cases he : stored.map DocSnapshot.updateId = some expected
  · rw [if_pos he]
    change (ite _ _ _ : Tx υ Nat).run _ = _
    rw [if_pos he]
    rfl
  · rw [if_neg he]
    change (ite _ _ _ : Tx υ Nat).run _ = _
    rw [if_neg he]
    rfl

theorem compareAndSet_run (expected : Option Nat) (row : DocSnapshot υ) (t : Tables υ) :
    ((compareAndSet expected row).run t = .ok (true, { t with docSnapshot := some row }) ∧
        expected = t.docSnapshot.map DocSnapshot.updateId) ∨
      (compareAndSet expected row).run t = .ok (false, t) ∨
      ∃ e, (compareAndSet expected row).run t = .error e := by
  obtain ⟨stored, rows⟩ := t
  cases expected with
  | none =>
      cases stored with
      | none => exact Or.inl ⟨rfl, rfl⟩
      | some old => exact Or.inr (Or.inr ⟨.P2002, rfl⟩)
  | some e =>
      have hrun := docSnapshotUpdateMany_run e row ⟨stored, rows⟩
      by_cases he : stored.map DocSnapshot.updateId = some e
      · refine Or.inl ⟨?_, he.symm⟩
        rw [if_pos he] at hrun
        rw [compareAndSet, StateT.run_bind, hrun]
        rfl
      · refine Or.inr (Or.inl ?_)
        rw [if_neg he] at hrun
        rw [compareAndSet, StateT.run_bind, hrun]
        rfl

theorem prune_run (outage : Option (CompactStatement × String)) (through : Nat) (t : Tables υ) :
    ((do guardOutage outage .deleteMany
         docUpdateDeleteMany through
         guardOutage outage .commit
         return true : Tx υ Bool).run t =
        .ok (true, { t with docUpdate := t.docUpdate.filter fun row => through < row.id })) ∨
      ∃ e, (do guardOutage outage .deleteMany
               docUpdateDeleteMany through
               guardOutage outage .commit
               return true : Tx υ Bool).run t = .error e := by
  rcases guardOutage_bind outage .deleteMany (fun _ => (do
    docUpdateDeleteMany through
    guardOutage outage .commit
    return true : Tx υ Bool)) t with h | h
  case inr => exact Or.inr h
  rw [h]
  exact guardOutage_bind outage .commit (fun _ => (pure true : Tx υ Bool))
    { t with docUpdate := t.docUpdate.filter fun row => through < row.id }

theorem compactTx_cases (outage : Option (CompactStatement × String)) (t : Tables υ)
    (snapshot : Finset υ) (through : Nat) (expected : Option Nat) :
    ((compactTx outage snapshot through expected).run t =
          .ok (true, compacted t snapshot through) ∧
        expected = t.docSnapshot.map DocSnapshot.updateId) ∨
      (compactTx outage snapshot through expected).run t = .ok (false, t) ∨
      ∃ e, (compactTx outage snapshot through expected).run t = .error e := by
  unfold compactTx
  rcases guardOutage_bind outage .writeSnapshot _ t with h | h
  case inr => exact Or.inr (Or.inr h)
  rw [h, StateT.run_bind]
  rcases compareAndSet_run expected ⟨snapshot, through⟩ t with ⟨hcas, hexp⟩ | hcas | ⟨e, hcas⟩
  · rw [hcas]
    rcases prune_run outage through { t with docSnapshot := some ⟨snapshot, through⟩ } with h' | h'
    · exact Or.inl ⟨h', hexp⟩
    · exact Or.inr (Or.inr h')
  · rw [hcas]
    exact Or.inr (Or.inl rfl)
  · rw [hcas]
    exact Or.inr (Or.inr ⟨e, rfl⟩)

/-- Everything `compact` can do: it wins against the watermark it expected and
advances it, or it changes nothing. -/
theorem compact_cases (docId : String) (outage : Option (CompactStatement × String))
    (t : Tables υ) (snapshot : Finset υ) (through : Nat) (expected : Option Nat) :
    ((compact docId outage t snapshot through expected).2 = .ok true ∧
        expected = t.docSnapshot.map DocSnapshot.updateId ∧
        (∀ e, expected = some e → e < through) ∧
        (compact docId outage t snapshot through expected).1 = compacted t snapshot through) ∨
      ((compact docId outage t snapshot through expected).2 ≠ .ok true ∧
        (compact docId outage t snapshot through expected).1 = t) := by
  have hcommit : ∀ r, ((r = .ok (true, compacted t snapshot through) ∧
        expected = t.docSnapshot.map DocSnapshot.updateId) ∨
        r = .ok (false, t) ∨ ∃ e, r = .error e) →
      ((compact.commitTx t r).2 = .ok true ∧
          expected = t.docSnapshot.map DocSnapshot.updateId ∧
          (compact.commitTx t r).1 = compacted t snapshot through) ∨
        ((compact.commitTx t r).2 ≠ .ok true ∧ (compact.commitTx t r).1 = t) := by
    rintro r (⟨rfl, hexp⟩ | rfl | ⟨e, rfl⟩)
    · exact Or.inl ⟨rfl, hexp, rfl⟩
    · exact Or.inr ⟨by simp [compact.commitTx], rfl⟩
    · cases e <;> exact Or.inr ⟨by simp [compact.commitTx], rfl⟩
  have htx := hcommit _ (compactTx_cases outage t snapshot through expected)
  cases expected with
  | none =>
      rcases htx with ⟨hwon, hexp, htab⟩ | hlost
      · exact Or.inl ⟨hwon, hexp, by simp, htab⟩
      · exact Or.inr hlost
  | some e =>
      by_cases hle : through ≤ e
      · exact Or.inr ⟨by simp [compact, hle], by simp [compact, hle]⟩
      · simp only [compact, if_neg hle]
        rcases htx with ⟨hwon, hexp, htab⟩ | hlost
        · refine Or.inl ⟨hwon, hexp, ?_, htab⟩
          rintro e' ⟨rfl⟩
          exact Nat.lt_of_not_le hle
        · exact Or.inr hlost

theorem compact_wins (docId : String) {t : Tables υ} (snapshot : Finset υ) {through : Nat}
    (hadv : ∀ e, t.docSnapshot.map DocSnapshot.updateId = some e → e < through) :
    compact docId none t snapshot through (t.docSnapshot.map DocSnapshot.updateId) =
      (compacted t snapshot through, .ok true) := by
  obtain ⟨stored, rows⟩ := t
  cases stored with
  | none => rfl
  | some old =>
      have hlt : ¬ through ≤ old.updateId := Nat.not_le_of_lt (hadv old.updateId rfl)
      have hrun : (docSnapshotUpdateMany old.updateId ⟨snapshot, through⟩).run
          (⟨some old, rows⟩ : Tables υ) = .ok (1, ⟨some ⟨snapshot, through⟩, rows⟩) := by
        rw [docSnapshotUpdateMany_run]
        exact if_pos rfl
      have htx : (compactTx none snapshot through (some old.updateId)).run
          (⟨some old, rows⟩ : Tables υ) =
            .ok (true, compacted ⟨some old, rows⟩ snapshot through) := by
        simp only [compactTx, guardOutage, pure_bind, compareAndSet, bind_assoc]
        rw [StateT.run_bind, hrun]
        rfl
      simp only [Option.map_some, compact, if_neg hlt, htx]
      rfl

end CollabIDE.Persistence.DocStore
