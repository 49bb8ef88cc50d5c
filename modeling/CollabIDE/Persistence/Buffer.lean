import CollabIDE.Persistence.Coverage
/-!
# The write buffer

`attachPersistence`: every update applied to a document is buffered and written
as one merged row per flush.  Flushes run one after another on a promise chain;
a link of the chain appends its batch, writes the derived text and may compact
the log.  The promise a flush returns is the chain as it was then, so it is
named by its number among the flushes.
-/

namespace CollabIDE.Persistence.Buffer

open CollabIDE.Lib CollabIDE.Persistence.DocStore CollabIDE.Persistence.Compactor
open CollabIDE.Persistence.Coverage

variable {υ : Type}

/-- An update as the buffer receives it. -/
structure Chunk (υ : Type) where
  update : Finset υ
  byteLength : Nat
  deriving DecidableEq

def flushBytes : Nat := 64 * 1024

/-- The await `writeBatch` is suspended at. -/
inductive Writing (υ : Type)
  | idle
  | appending (merged : Finset υ)
  /-- The row is committed; `writeBatch` has not resumed. -/
  | appended
  /-- Writing the text of the document as it was then. -/
  | materializing (ydoc : Finset υ)
  | counting
  | reading
  | compacting (candidate : CompactionCandidate υ) (through : Nat)
  deriving DecidableEq

structure DocPersistence (υ : Type) where
  buffered : List (Chunk υ)
  bufferedBytes : Nat
  timer : Bool
  /-- Batches whose `writeBatch` has not started. -/
  chain : List (List (Chunk υ))
  writing : Writing υ
  detached : Bool
  /-- Calls of `flush` so far. -/
  requested : Nat
  /-- Links of the chain that have settled. -/
  settled : Nat
  deriving DecidableEq

/-- The buffer of a document nothing was applied to. -/
def DocPersistence.fresh : DocPersistence υ := ⟨[], 0, false, [], .idle, false, 0, 0⟩

def flush (b : DocPersistence υ) : DocPersistence υ :=
  { b with
    buffered := []
    bufferedBytes := 0
    timer := false
    chain := b.chain ++ [b.buffered]
    requested := b.requested + 1 }

def onUpdate (b : DocPersistence υ) (update : Chunk υ) : DocPersistence υ :=
  let b := { b with
    buffered := b.buffered ++ [update]
    bufferedBytes := b.bufferedBytes + update.byteLength }
  if flushBytes ≤ b.bufferedBytes then flush b
  -- not restarted: the first update after a flush starts the clock
  else { b with timer := true }

def timerFires (b : DocPersistence υ) : Option (DocPersistence υ) :=
  if b.timer then some (flush b) else none

def detach (b : DocPersistence υ) : DocPersistence υ :=
  if b.detached then b else { b with detached := true, timer := false }

theorem detach_eq (b : DocPersistence υ) :
    ∃ timer, detach b = { b with detached := true, timer := timer } := by
  unfold detach
  by_cases h : b.detached = true
  · rw [if_pos h]
    refine ⟨b.timer, ?_⟩
    rw [← h]
  · rw [if_neg h]
    exact ⟨false, rfl⟩

/-- `Y.mergeUpdates`. -/
def mergeUpdates [DecidableEq υ] (batch : List (Chunk υ)) : Finset υ :=
  batch.foldl (fun merged chunk => merged ∪ chunk.update) ∅

/-- The tables with the id sequence and the clock of the database. -/
structure Store (υ : Type) where
  tables : Tables υ
  /-- The next id is at least this. -/
  nextId : Nat
  /-- `now()`. -/
  clock : Int

/-- The turns of `writeBatch`. -/
inductive WriteEvent (υ : Type)
  | start
  /-- The insert commits; other documents may have taken ids in between. -/
  | append (id : Nat)
  | appendFails (mergedBytes : Nat)
  | resume (ydoc : Finset υ)
  | materialize (succeeds : Bool)
  | count
  | read (cutoff : Int)
  | compact (outage : Option (CompactStatement × String))
  /-- A statement of the compaction throws. -/
  | compactionFails

/-- A link of the chain settles. -/
def DocPersistence.settle (b : DocPersistence υ) : DocPersistence υ :=
  { b with writing := .idle, settled := b.settled + 1 }

def writeStep [DecidableEq υ] (docId : String) (s : Store υ) (b : DocPersistence υ) :
    WriteEvent υ → Option (Store υ × DocPersistence υ)
  | .start =>
    match b.writing, b.chain with
    | .idle, [] :: rest => some (s, { b with chain := rest }.settle)
    | .idle, batch :: rest =>
      some (s, { b with chain := rest, writing := .appending (mergeUpdates batch) })
    | _, _ => none
  | .append id =>
    match b.writing with
    | .appending merged =>
      if s.nextId ≤ id then
        some ({ s with tables := appendUpdate s.tables ⟨id, merged, s.clock⟩, nextId := id + 1 },
          { b with writing := .appended })
      else none
    | _ => none
  | .appendFails mergedBytes =>
    match b.writing with
    -- put it back at the front rather than dropping edits
    | .appending merged =>
      some (s, { b with
        buffered := ⟨merged, mergedBytes⟩ :: b.buffered
        bufferedBytes := b.bufferedBytes + mergedBytes }.settle)
    | _ => none
  | .resume ydoc =>
    match b.writing with
    | .appended => some (s, { b with writing := .materializing ydoc })
    | _ => none
  | .materialize _ =>
    match b.writing with
    | .materializing _ => some (s, { b with writing := .counting })
    | _ => none
  | .count =>
    match b.writing with
    | .counting =>
      if countUpdates s.tables ≤ compactAfter then some (s, b.settle)
      else some (s, { b with writing := .reading })
    | _ => none
  | .read cutoff =>
    match b.writing with
    | .reading =>
      let candidate := readForCompaction s.tables cutoff
      match candidate.throughUpdateId with
      | none => some (s, b.settle)
      | some through => some (s, { b with writing := .compacting candidate through })
    | _ => none
  | .compact outage =>
    match b.writing with
    | .compacting candidate through =>
      some ({ s with tables := (DocStore.compact docId outage s.tables (foldCandidate candidate)
        through candidate.expectedUpdateId).1 }, b.settle)
    | _ => none
  | .compactionFails =>
    match b.writing with
    | .counting | .reading | .compacting .. => some (s, b.settle)
    | _ => none

/-- The store call of this turn does what it was asked. -/
def WriteEvent.Succeeds : WriteEvent υ → Prop
  | .appendFails _ | .materialize false | .compactionFails => False
  | .compact outage => outage = none
  | _ => True

/-! ## What is not written yet -/

/-- An update that was observed and is in no committed row. -/
def Unwritten (b : DocPersistence υ) (u : υ) : Prop :=
  (∃ chunk ∈ b.buffered, u ∈ chunk.update) ∨
    (∃ batch ∈ b.chain, ∃ chunk ∈ batch, u ∈ chunk.update) ∨
    ∃ merged, b.writing = .appending merged ∧ u ∈ merged

/-- Nothing to write and no write under way. -/
structure Quiet (b : DocPersistence υ) : Prop where
  buffered_eq : b.buffered = []
  chain_empty : ∀ batch ∈ b.chain, batch = []
  writing_eq : b.writing = .idle

theorem quiet_fresh : Quiet (DocPersistence.fresh : DocPersistence υ) :=
  ⟨rfl, by simp [DocPersistence.fresh], rfl⟩

theorem Quiet.not_unwritten {b : DocPersistence υ} (hb : Quiet b) (u : υ) : ¬ Unwritten b u := by
  rintro (⟨chunk, hchunk, -⟩ | ⟨batch, hbatch, chunk, hchunk, -⟩ | ⟨merged, hmerged, -⟩)
  · simp [hb.buffered_eq] at hchunk
  · simp [hb.chain_empty batch hbatch] at hchunk
  · simp [hb.writing_eq] at hmerged

theorem unwritten_flush {b : DocPersistence υ} {u : υ} : Unwritten (flush b) u ↔ Unwritten b u := by
  simp only [Unwritten, flush, List.mem_append, List.mem_singleton, List.not_mem_nil, false_and,
    exists_false, false_or]
  constructor
  · rintro (⟨batch, hbatch | rfl, hu⟩ | hw)
    · exact Or.inr (Or.inl ⟨batch, hbatch, hu⟩)
    · exact Or.inl hu
    · exact Or.inr (Or.inr hw)
  · rintro (hu | ⟨batch, hbatch, hu⟩ | hw)
    · exact Or.inl ⟨_, Or.inr rfl, hu⟩
    · exact Or.inl ⟨batch, Or.inl hbatch, hu⟩
    · exact Or.inr hw

theorem quiet_flush {b : DocPersistence υ} (hb : Quiet b) : Quiet (flush b) := by
  refine ⟨rfl, fun batch hbatch => ?_, hb.writing_eq⟩
  rcases List.mem_append.mp hbatch with hold | hnew
  · exact hb.chain_empty batch hold
  · rw [List.mem_singleton.mp hnew, hb.buffered_eq]

theorem unwritten_onUpdate {b : DocPersistence υ} {chunk : Chunk υ} {u : υ} :
    Unwritten (onUpdate b chunk) u ↔ Unwritten b u ∨ u ∈ chunk.update := by
  have hpush : ∀ timer bytes, Unwritten { b with
      buffered := b.buffered ++ [chunk], bufferedBytes := bytes, timer := timer } u ↔
        Unwritten b u ∨ u ∈ chunk.update := by
    intro timer bytes
    simp only [Unwritten, List.mem_append, List.mem_singleton, or_and_right, exists_or,
      exists_eq_left]
    grind
  unfold onUpdate
  by_cases hfull : flushBytes ≤ b.bufferedBytes + chunk.byteLength
  · simp only [if_pos hfull, unwritten_flush]
    exact hpush b.timer _
  · simp only [if_neg hfull]
    exact hpush true _

theorem onUpdate_writing (b : DocPersistence υ) (chunk : Chunk υ) :
    (onUpdate b chunk).writing = b.writing := by
  unfold onUpdate
  by_cases hfull : flushBytes ≤ b.bufferedBytes + chunk.byteLength
  · simp only [if_pos hfull, flush]
  · simp only [if_neg hfull]

section Write

variable [DecidableEq υ]

theorem mem_mergeUpdates {batch : List (Chunk υ)} {u : υ} :
    u ∈ mergeUpdates batch ↔ ∃ chunk ∈ batch, u ∈ chunk.update := by
  have hfold : ∀ base : Finset υ,
      u ∈ batch.foldl (fun merged chunk => merged ∪ chunk.update) base ↔
        u ∈ base ∨ ∃ chunk ∈ batch, u ∈ chunk.update := by
    induction batch with
    | nil => simp
    | cons chunk batch ih =>
        intro base
        rw [List.foldl_cons, ih]
        simp only [Finset.mem_union, List.exists_mem_cons_iff, or_assoc]
  rw [mergeUpdates, hfold]
  simp

/-- What an id sequence gives the rows. -/
structure Store.Sequenced (s : Store υ) : Prop where
  id_pos : ∀ row ∈ s.tables.docUpdate, 0 < row.id
  watermark_lt : updateIdOrZero s.tables.docSnapshot < s.nextId
  id_lt : ∀ row ∈ s.tables.docUpdate, row.id < s.nextId

/-- The store a process starts on. -/
structure Start (υ : Type) where
  store : Store υ
  sequenced : store.Sequenced

/-- Nothing was ever stored. -/
def Start.empty (clock : Int) : Start υ where
  store := ⟨Tables.empty, 1, clock⟩
  sequenced := by
    constructor <;> simp [Tables.empty, updateIdOrZero]

/-- What an id sequence and a clock that does not run backwards give the rows. -/
structure Store.Ordered (s : Store υ) : Prop where
  above : ∀ row ∈ s.tables.docUpdate,
    updateIdOrZero s.tables.docSnapshot < row.id ∧ row.id < s.nextId
  watermark_lt : updateIdOrZero s.tables.docSnapshot < s.nextId
  stamped : ∀ row ∈ s.tables.docUpdate, row.createdAt ≤ s.clock
  mono : WatermarkLog.StampsMonotone DocUpdate.id DocUpdate.createdAt s.tables.docUpdate

omit [DecidableEq υ] in
theorem Store.Ordered.sequenced {s : Store υ} (hs : s.Ordered) : s.Sequenced where
  id_pos := fun row hrow => Nat.zero_lt_of_lt (hs.above row hrow).1
  watermark_lt := hs.watermark_lt
  id_lt := fun row hrow => (hs.above row hrow).2

omit [DecidableEq υ] in
theorem Store.Ordered.tick {s : Store υ} (hs : s.Ordered) {milliseconds : Int}
    (hforward : 0 ≤ milliseconds) :
    Store.Ordered { s with clock := s.clock + milliseconds } where
  above := hs.above
  watermark_lt := hs.watermark_lt
  stamped := fun row hrow =>
    (hs.stamped row hrow).trans (Int.le_add_of_nonneg_right hforward)
  mono := hs.mono

omit [DecidableEq υ] in
theorem ordered_empty (clock : Int) : (Start.empty clock : Start υ).store.Ordered := by
  constructor <;> simp [Start.empty, Tables.empty, updateIdOrZero, WatermarkLog.StampsMonotone]

/-- A compaction reads while no row that is too young to fold lies below one
that is old enough. -/
def WriteEvent.Splits (t : Tables υ) : WriteEvent υ → Prop
  | .read cutoff => AgesSplit cutoff t
  | _ => True

omit [DecidableEq υ] in
theorem Store.Ordered.splits {s : Store υ} (hs : s.Ordered) (e : WriteEvent υ) :
    e.Splits s.tables := by
  cases e with
  | read cutoff => exact agesSplit_of_stampsMonotone hs.mono cutoff
  | _ => trivial

/-- A candidate about to be compacted was read from the tables as they are, and
folds what is deleted with it. -/
def Current (s : Store υ) (b : DocPersistence υ) : Prop :=
  ∀ candidate through, b.writing = .compacting candidate through →
    ∃ cutoff, candidate = readForCompaction s.tables cutoff ∧
      candidate.throughUpdateId = some through ∧ AgesSplit cutoff s.tables

omit [DecidableEq υ] in
theorem sequenced_append {s : Store υ} (hs : s.Sequenced) {id : Nat} (hid : s.nextId ≤ id)
    (merged : Finset υ) :
    Store.Sequenced ⟨appendUpdate s.tables ⟨id, merged, s.clock⟩, id + 1, s.clock⟩ := by
  have hrow : ∀ row ∈ (appendUpdate s.tables ⟨id, merged, s.clock⟩).docUpdate,
      row ∈ s.tables.docUpdate ∨ row = ⟨id, merged, s.clock⟩ := by
    intro row hrow
    simpa [appendUpdate] using hrow
  refine ⟨fun row hmem => ?_, hs.watermark_lt.trans (Nat.lt_succ_of_le hid), fun row hmem => ?_⟩
  · rcases hrow row hmem with hold | rfl
    · exact hs.id_pos row hold
    · exact (Nat.zero_lt_of_lt hs.watermark_lt).trans_le hid
  · rcases hrow row hmem with hold | rfl
    · exact (hs.id_lt row hold).trans (Nat.lt_succ_of_le hid)
    · exact Nat.lt_succ_self _

omit [DecidableEq υ] in
theorem sequenced_compacted {s : Store υ} (hs : s.Sequenced) {cutoff : Int} {through : Nat}
    (h : (readForCompaction s.tables cutoff).throughUpdateId = some through)
    (snapshot : Finset υ) :
    Store.Sequenced ⟨compacted s.tables snapshot through, s.nextId, s.clock⟩ := by
  obtain ⟨last, hlast, rfl, -, -⟩ := throughUpdateId_eq_some h
  have hkept : ∀ row ∈ (compacted s.tables snapshot last.id).docUpdate,
      row ∈ s.tables.docUpdate := fun row hrow => (List.mem_filter.mp hrow).1
  exact ⟨fun row hrow => hs.id_pos row (hkept row hrow), hs.id_lt last hlast,
    fun row hrow => hs.id_lt row (hkept row hrow)⟩

omit [DecidableEq υ] in
theorem ordered_append {s : Store υ} (hs : s.Ordered) {id : Nat} (hid : s.nextId ≤ id)
    (merged : Finset υ) :
    Store.Ordered ⟨appendUpdate s.tables ⟨id, merged, s.clock⟩, id + 1, s.clock⟩ := by
  have hrow : ∀ row ∈ (appendUpdate s.tables ⟨id, merged, s.clock⟩).docUpdate,
      row ∈ s.tables.docUpdate ∨ row = ⟨id, merged, s.clock⟩ := by
    intro row hrow
    simpa [appendUpdate] using hrow
  refine ⟨?_, hs.watermark_lt.trans (Nat.lt_succ_of_le hid), ?_, ?_⟩
  · intro row hmem
    rcases hrow row hmem with hold | rfl
    · exact ⟨(hs.above row hold).1, (hs.above row hold).2.trans (Nat.lt_succ_of_le hid)⟩
    · exact ⟨hs.watermark_lt.trans_le hid, Nat.lt_succ_self _⟩
  · intro row hmem
    rcases hrow row hmem with hold | rfl
    · exact hs.stamped row hold
    · exact le_rfl
  · intro row hmem row' hmem' hle
    rcases hrow row hmem with hold | rfl
    · rcases hrow row' hmem' with hold' | rfl
      · exact hs.mono row hold row' hold' hle
      · exact hs.stamped row hold
    · rcases hrow row' hmem' with hold' | rfl
      · exact absurd ((hid.trans hle).trans_lt (hs.above row' hold').2) (lt_irrefl _)
      · exact le_rfl

omit [DecidableEq υ] in
theorem ordered_compacted {s : Store υ} (hs : s.Ordered) {cutoff : Int} {through : Nat}
    (h : (readForCompaction s.tables cutoff).throughUpdateId = some through)
    (snapshot : Finset υ) :
    Store.Ordered ⟨compacted s.tables snapshot through, s.nextId, s.clock⟩ := by
  obtain ⟨last, hlast, rfl, -, -⟩ := throughUpdateId_eq_some h
  have hkept : ∀ row ∈ (compacted s.tables snapshot last.id).docUpdate,
      row ∈ s.tables.docUpdate ∧ last.id < row.id := by
    intro row hrow
    simpa [compacted] using hrow
  refine ⟨fun row hrow => ⟨(hkept row hrow).2, (hs.above row (hkept row hrow).1).2⟩,
    (hs.above last hlast).2, fun row hrow => hs.stamped row (hkept row hrow).1, ?_⟩
  exact fun row hrow row' hrow' => hs.mono row (hkept row hrow).1 row' (hkept row' hrow').1

/-- What a turn of `writeBatch` keeps. -/
structure Kept (s s' : Store υ) (b b' : DocPersistence υ) : Prop where
  sequenced : s'.Sequenced
  current : Current s' b'
  /-- Nothing stored is lost, and only what was unwritten is added. -/
  stored : contents s.tables ⊆ contents s'.tables
  stored_only : ∀ u ∈ contents s'.tables, u ∈ contents s.tables ∨ Unwritten b u
  unstored : s'.tables = Tables.empty → s.tables = Tables.empty
  /-- What is no longer unwritten is stored. -/
  written : ∀ u, Unwritten b u → Unwritten b' u ∨ u ∈ contents s'.tables
  unwritten_only : ∀ u, Unwritten b' u → Unwritten b u

theorem kept_append {s : Store υ} {b : DocPersistence υ} {merged : Finset υ} {id : Nat}
    (hs : s.Sequenced) (hwriting : b.writing = .appending merged) (hid : s.nextId ≤ id) :
    Kept s ⟨appendUpdate s.tables ⟨id, merged, s.clock⟩, id + 1, s.clock⟩ b
      { b with writing := .appended } := by
  have hcontents : contents (appendUpdate s.tables ⟨id, merged, s.clock⟩) =
      contents s.tables ∪ merged :=
    contents_appendUpdate (hs.watermark_lt.trans_le hid)
  refine ⟨sequenced_append hs hid merged, fun _ _ hw => (nomatch hw), ?_, ?_, fun hempty => ?_,
    ?_, ?_⟩
  · rw [hcontents]
    exact Finset.subset_union_left
  · intro u hu
    rw [hcontents, Finset.mem_union] at hu
    rcases hu with hu | hu
    · exact Or.inl hu
    · exact Or.inr (Or.inr (Or.inr ⟨merged, hwriting, hu⟩))
  · simp [appendUpdate, Tables.empty] at hempty
  · rintro u (hu | hu | ⟨m, hm, hu⟩)
    · exact Or.inl (Or.inl hu)
    · exact Or.inl (Or.inr (Or.inl hu))
    · rw [hwriting, Writing.appending.injEq] at hm
      rw [hcontents, Finset.mem_union]
      exact Or.inr (Or.inr (hm ▸ hu))
  · rintro u (hu | hu | ⟨m, hm, -⟩)
    · exact Or.inl hu
    · exact Or.inr (Or.inl hu)
    · cases hm

omit [DecidableEq υ] in
theorem unwritten_of_not_appending {b b' : DocPersistence υ} (hbuffered : b'.buffered = b.buffered)
    (hchain : b'.chain = b.chain) (hb : ∀ merged, b.writing ≠ .appending merged)
    (hb' : ∀ merged, b'.writing ≠ .appending merged) (u : υ) :
    Unwritten b' u ↔ Unwritten b u := by
  simp only [Unwritten, hbuffered, hchain, hb, hb', false_and, exists_false]

theorem writeStep_quiet {docId : String} {s s' : Store υ}
    {b b' : DocPersistence υ} {e : WriteEvent υ} (hb : Quiet b)
    (h : writeStep docId s b e = some (s', b')) : s' = s ∧ Quiet b' := by
  cases e with
  | start =>
      rcases hchain : b.chain with - | ⟨batch, rest⟩
      · simp [writeStep, hb.writing_eq, hchain] at h
      · have hempty : batch = [] := hb.chain_empty batch (by simp [hchain])
        subst hempty
        simp only [writeStep, hb.writing_eq, hchain, Option.some.injEq, Prod.mk.injEq] at h
        obtain ⟨rfl, rfl⟩ := h
        exact ⟨rfl, hb.buffered_eq, fun batch hbatch =>
          hb.chain_empty batch (hchain ▸ List.mem_cons_of_mem _ hbatch), rfl⟩
  | _ => simp [writeStep, hb.writing_eq] at h

end Write

/-! ## The promise of a flush -/

/-- The links of the chain that have settled or are being written. -/
def begun (b : DocPersistence υ) : Nat :=
  match b.writing with
  | .idle => b.settled
  | _ => b.settled + 1

/-- Every call of `flush` put one link on the chain. -/
def Counted (b : DocPersistence υ) : Prop := b.requested = begun b + b.chain.length

/-- The buffer of an evicted room, whose last flush was number `ticket`. -/
structure Final (b : DocPersistence υ) (ticket : Nat) : Prop where
  buffered_eq : b.buffered = []
  later_empty : ∀ batch ∈ b.chain.drop (ticket - begun b), batch = []
  writing_lt : b.writing ≠ .idle → b.settled < ticket

theorem begun_of_idle {b : DocPersistence υ} (h : b.writing = .idle) : begun b = b.settled := by
  simp only [begun, h]

theorem begun_of_busy {b : DocPersistence υ} (h : b.writing ≠ .idle) :
    begun b = b.settled + 1 := by
  unfold begun
  cases hw : b.writing <;> simp_all

theorem settled_le_begun (b : DocPersistence υ) : b.settled ≤ begun b := by
  unfold begun
  cases b.writing <;> simp

theorem counted_flush {b : DocPersistence υ} (hb : Counted b) : Counted (flush b) := by
  simp only [Counted, flush, begun, List.length_append, List.length_singleton] at hb ⊢
  omega

theorem counted_onUpdate {b : DocPersistence υ} (hb : Counted b) (chunk : Chunk υ) :
    Counted (onUpdate b chunk) := by
  unfold onUpdate
  by_cases hfull : flushBytes ≤ b.bufferedBytes + chunk.byteLength
  · simp only [if_pos hfull]
    exact counted_flush hb
  · simp only [if_neg hfull]
    exact hb

/-- The flush of an eviction is the last one with anything to write. -/
theorem final_flush {b : DocPersistence υ} (hb : Counted b) :
    Final (flush b) (flush b).requested := by
  have hb' := counted_flush hb
  refine ⟨rfl, ?_, fun _ => ?_⟩
  · have hall : (flush b).chain.drop ((flush b).requested - begun (flush b)) = [] := by
      rw [hb', Nat.add_sub_cancel_left, List.drop_length]
    simp [hall]
  · have hle := settled_le_begun (flush b)
    have hlen : 0 < (flush b).chain.length := by simp [flush]
    rw [hb']
    omega

theorem final_flush_again {b : DocPersistence υ} {ticket : Nat} (hb : Final b ticket) :
    Final (flush b) ticket := by
  refine ⟨rfl, fun batch hbatch => ?_, hb.writing_lt⟩
  simp only [flush, hb.buffered_eq, List.drop_append] at hbatch
  rcases List.mem_append.mp hbatch with hold | hnew
  · exact hb.later_empty batch hold
  · exact List.mem_singleton.mp (List.mem_of_mem_drop hnew)

theorem Final.quiet {b : DocPersistence υ} {ticket : Nat} (hb : Final b ticket)
    (hsettled : ticket ≤ b.settled) : Quiet b := by
  refine ⟨hb.buffered_eq, fun batch hbatch => hb.later_empty batch ?_, ?_⟩
  · rwa [Nat.sub_eq_zero_of_le (hsettled.trans (settled_le_begun b)), List.drop_zero]
  · by_contra hbusy
    exact absurd (hb.writing_lt hbusy) (Nat.not_lt_of_le hsettled)

end CollabIDE.Persistence.Buffer
