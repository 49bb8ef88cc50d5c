import CollabIDE.Collab.ReopenInvariant
/-!
# Visits to a document

A room is created with everything the rooms before it held, and visits in which
nobody edits leave the stored document as it was.
-/

namespace CollabIDE.Collab.Reopen

open CollabIDE.Lib.Machine CollabIDE.Lib.WatermarkLog CollabIDE.Collab.Rooms
open CollabIDE.Persistence.DocStore CollabIDE.Persistence.Buffer

def Event.isEdit : Event → Bool
  | .edit .. => true
  | _ => false

/-- No room of the document has anything left to write. -/
def AtRest (s : Site) : Prop := ∀ r, Quiet (s.work r).buffer

/-- The tables are as they were, or the document got its first snapshot. -/
def OnlySeeded (before after : Tables Update) : Prop :=
  after = before ∨
    before = Tables.empty ∧ ∃ r content, after = writeSnapshot Tables.empty (seedOf r content) 0

theorem OnlySeeded.trans {a b c : Tables Update} (hab : OnlySeeded a b) (hbc : OnlySeeded b c) :
    OnlySeeded a c := by
  rcases hab with rfl | ⟨ha, r, content, rfl⟩
  · exact hbc
  · rcases hbc with rfl | ⟨hb, -⟩
    · exact Or.inr ⟨ha, r, content, rfl⟩
    · cases hb

variable {start : Tables Update} {docBusEnabled : Bool} {docId : String} {s s' : Site} {r : RoomId}

theorem AtRest.setWork (hs : AtRest s) {w : Work} (hw : Quiet w.buffer) :
    AtRest (s.setWork r w) := by
  intro k
  simp only [Site.setWork, Function.update_apply]
  split
  · exact hw
  · exact hs k

theorem quiet_detach {b : DocPersistence Update} (hb : Quiet b) : Quiet (detach b) := by
  unfold detach
  split
  · exact hb
  · exact ⟨hb.buffered_eq, hb.chain_empty, hb.writing_eq⟩

theorem atRest_control {e : Rooms.Event} (hs : AtRest s)
    (h : control docBusEnabled s e = some s') : AtRest s' ∧ s'.store = s.store := by
  obtain ⟨doc, -, rfl, -⟩ := control_eq_some h
  refine ⟨?_, rfl⟩
  cases e with
  | resumeLeave c =>
      cases hev : evicted s.doc c with
      | none => simpa only [AtRest, controlWork, hev] using hs
      | some k =>
          simp only [AtRest, controlWork, hev]
          exact hs.setWork (quiet_flush (hs k))
  | finishLeave c =>
      cases hc : s.doc.conn c with
      | evicting k =>
          simp only [AtRest, controlWork, hc]
          exact hs.setWork (quiet_detach (hs k))
      | _ => simpa only [AtRest, controlWork, hc] using hs
  | _ => exact hs

/-- With nothing to write and no edit, a step stores nothing but the seed. -/
theorem atRest_step {e : Event} (hinv : Inv start docBusEnabled s) (hs : AtRest s)
    (hedit : e.isEdit = false) (h : step docBusEnabled docId s e = some s') :
    AtRest s' ∧ OnlySeeded s.store.tables s'.store.tables := by
  cases e with
  | control e =>
      obtain ⟨hrest, hstore⟩ := atRest_control hs h
      exact ⟨hrest, Or.inl (by rw [hstore])⟩
  | lookUp r file =>
      obtain ⟨-, -, ⟨-, rfl⟩ | ⟨content, -, rfl⟩⟩ := lookUp_eq_some h
      · exact ⟨hs, Or.inl rfl⟩
      · exact ⟨hs.setWork (hs r), Or.inl rfl⟩
  | readSnapshot r =>
      obtain ⟨content, -, rfl⟩ := readSnapshot_eq_some h
      exact ⟨hs.setWork (hs r), Or.inl rfl⟩
  | readTail r =>
      obtain ⟨content, snapshot, -, ⟨-, -, rfl⟩ | ⟨-, rfl⟩⟩ := readTail_eq_some h
      · exact ⟨AtRest.setWork (s := s) hs (hs r), Or.inl rfl⟩
      · exact ⟨hs.setWork (hs r), Or.inl rfl⟩
  | writeSeed r =>
      obtain ⟨content, hloading, -, rfl⟩ := writeSeed_eq_some h
      have hempty := (hinv.seeding r content hloading).2
      exact ⟨AtRest.setWork (s := s) hs (hs r),
        Or.inr ⟨hempty, r, content, congrArg (writeSnapshot · (seedOf r content) 0) hempty⟩⟩
  | edit c edits byteLength => cases hedit
  | timerFires r =>
      obtain ⟨buffer, hbuffer, rfl⟩ := timerFires_eq_some h
      simp only [timerFires, Option.ite_none_right_eq_some, Option.some.injEq] at hbuffer
      exact ⟨hs.setWork (hbuffer.2 ▸ quiet_flush (hs r)), Or.inl rfl⟩
  | flush r =>
      obtain ⟨-, rfl⟩ := flush_eq_some h
      exact ⟨hs.setWork (quiet_flush (hs r)), Or.inl rfl⟩
  | write r e =>
      simp only [step, Option.ite_none_right_eq_some, Option.map_eq_some_iff] at h
      obtain ⟨-, ⟨store, buffer⟩, hwrite, rfl⟩ := h
      obtain ⟨rfl, hquiet⟩ := writeStep_quiet (hs r) hwrite
      exact ⟨AtRest.setWork (s := s) hs hquiet, Or.inl rfl⟩
  | tick milliseconds =>
      simp only [step, Option.some.injEq] at h
      exact h ▸ ⟨hs, Or.inl rfl⟩

theorem splits_of_atRest {e : Event} (hs : AtRest s)
    (h : step docBusEnabled docId s e = some s') : Splits s e := by
  cases e with
  | write r e =>
      cases e with
      | read cutoff => simp [step, takesTurn, writeStep, (hs r).writing_eq] at h
      | _ => trivial
  | _ => trivial

theorem atRest_run {visit : List Event} (hinv : Inv start docBusEnabled s) (hs : AtRest s)
    (hedit : ∀ e ∈ visit, e.isEdit = false) (h : run (step docBusEnabled docId) s visit = some s') :
    OnlySeeded s.store.tables s'.store.tables := by
  induction visit generalizing s with
  | nil =>
      cases h
      exact Or.inl rfl
  | cons e visit ih =>
      obtain ⟨t, ht, hrest⟩ := run_cons_eq_some.mp h
      obtain ⟨hs', htables⟩ := atRest_step hinv hs (hedit e List.mem_cons_self) ht
      exact htables.trans (ih (inv_step hinv (splits_of_atRest hs ht) ht) hs'
        (fun e he => hedit e (List.mem_cons_of_mem _ he)) hrest)

theorem write_unedited {e : WriteEvent Update} (hinv : Inv start docBusEnabled s)
    (hunedited : (s.work r).ydoc = (s.work r).initial)
    (h : step docBusEnabled docId s (.write r e) = some s') : s'.store = s.store := by
  have hquiet : Quiet (s.work r).buffer := by
    by_contra hbusy
    exact hinv.edited r hbusy hunedited
  simp only [step, Option.ite_none_right_eq_some, Option.map_eq_some_iff] at h
  obtain ⟨-, ⟨store, buffer⟩, hwrite, rfl⟩ := h
  exact (writeStep_quiet hquiet hwrite).1

/-- From any stored document, in every run whose compactions read while no row
that is too young to fold lies below one that is old enough: every room that was
created started with what was stored, with the one seed and with all that
earlier rooms of the document ever held, a room nobody edits writes nothing, and
visits without an edit to a document at rest store nothing but its first
snapshot. -/
theorem reopened_is_never_behind {start : Start Update} {events : List Event}
    (h : run (step docBusEnabled docId) (Site.init start) events = some s)
    (hsplits : Meets (step docBusEnabled docId) Splits (Site.init start) events) :
    (∀ r, s.doc.creation r = .ready →
      contents start.store.tables ⊆ (s.work r).initial ∧
      Seeded start.store.tables s.seed (s.work r).initial ∧
      ∀ k, k < r → s.doc.creation k = .ready → (s.work k).ydoc ⊆ (s.work r).initial) ∧
    (∀ r e s', (s.work r).ydoc = (s.work r).initial →
      step docBusEnabled docId s (.write r e) = some s' → s'.store = s.store) ∧
    ∀ visit s', AtRest s → (∀ e ∈ visit, e.isEdit = false) →
      run (step docBusEnabled docId) s visit = some s' →
      OnlySeeded s.store.tables s'.store.tables := by
  have hinv := inv_run h hsplits
  refine ⟨fun r hr => ?_, fun _ _ _ => write_unedited hinv, fun _ _ => atRest_run hinv⟩
  obtain ⟨hstart, hseeded⟩ := hinv.opened r hr
  exact ⟨hstart, hseeded, fun k hlt hk => hinv.behind r k hlt hr hk⟩


/-- Rows stamped in the order of their ids, by a clock that is not set back, are
split by every compaction of the run. -/
theorem splits_of_forward {start : Start Update} {events : List Event}
    (hordered : start.store.Ordered) (hforward : ∀ e ∈ events, setsBack e = false) :
    Meets (step docBusEnabled docId) Splits (Site.init start) events := by
  refine meets_of_invariant
    (P := fun s => Inv start.store.tables docBusEnabled s ∧ s.store.Ordered)
    ⟨inv_init start docBusEnabled, hordered⟩ (fun e _ s hs => splits_of_ordered hs.2 e) ?_
  rintro e he s t ⟨hinv, hs⟩ ht
  exact ⟨inv_step hinv (splits_of_ordered hs e) ht, ordered_step hinv hs (hforward e he) ht⟩

/-- A document of 200 rows, stamped in the order of their ids, whose last row is
too young to fold. -/
def stored : Start Update where
  store :=
    { tables := ⟨none, (List.range 200).map fun i =>
        ⟨i + 1, {.edit (if i < 199 then 1 else 2)}, if i < 199 then 0 else 60000⟩⟩
      nextId := 201
      clock := 60000 }
  sequenced := by
    refine ⟨by simp, by decide, ?_⟩
    simp only [List.mem_map, List.mem_range, forall_exists_index, and_imp,
      forall_apply_eq_imp_iff₂]
    omega

theorem ordered_stored : stored.store.Ordered := by
  refine ⟨?_, by decide, ?_, ?_⟩
  · simp only [stored, List.mem_map, List.mem_range, forall_exists_index, and_imp,
      forall_apply_eq_imp_iff₂, updateIdOrZero]
    intro i hi
    exact ⟨Nat.succ_pos i, by omega⟩
  · simp only [stored, List.mem_map, List.mem_range, forall_exists_index, and_imp,
      forall_apply_eq_imp_iff₂]
    intro i hi
    split <;> omega
  · simp only [StampsMonotone, stored, List.mem_map, List.mem_range, forall_exists_index, and_imp,
      forall_apply_eq_imp_iff₂]
    intro i hi j hj hle
    split <;> split <;> omega

/-- A visit with an edit whose write compacts the log, and a second visit that
joins while that is still under way. -/
def twoVisits : List Event :=
  [.control (.join 0), .lookUp 0 (some "text"), .readSnapshot 0, .readTail 0,
    .control (.resumeJoin 0), .control (.attach 0), .edit 0 {7} 20, .control (.leave 0),
    .control (.resumeLeave 0), .control (.join 1), .write 0 .start, .write 0 (.append 201),
    .write 0 (.resume {.edit 1, .edit 2, .edit 7}), .write 0 (.materialize true),
    .write 0 .count, .write 0 (.read 30000), .write 0 (.compact none),
    .control (.writeSettles 0), .control (.proceed 1), .lookUp 1 (some "text"),
    .readSnapshot 1, .readTail 1]

theorem reopened_is_never_behind_two_visits :
    ∃ s, run (step false "project:file") (Site.init stored) twoVisits = some s ∧
      s.store.tables.docUpdate.map DocUpdate.id = [200, 201] ∧
      (s.work 0).ydoc = {.edit 1, .edit 2, .edit 7} ∧ (s.work 0).ydoc ⊆ (s.work 1).initial := by
  have hrun : (run (step false "project:file") (Site.init stored) twoVisits).map (fun s =>
      (s.doc.creation 0, s.doc.creation 1, s.store.tables.docUpdate.map DocUpdate.id,
        (s.work 0).ydoc)) =
      some (.ready, .ready, [200, 201], {.edit 1, .edit 2, .edit 7}) := by decide +kernel
  obtain ⟨s, hs, hfields⟩ := Option.map_eq_some_iff.mp hrun
  simp only [Prod.mk.injEq] at hfields
  obtain ⟨hready, hready', hids, hydoc⟩ := hfields
  have hsplits : Meets (step false "project:file") Splits (Site.init stored) twoVisits :=
    splits_of_forward ordered_stored (by decide)
  exact ⟨s, hs, hids, hydoc,
    ((reopened_is_never_behind hs hsplits).1 1 hready').2.2 0 Nat.zero_lt_one hready⟩

/-- A document of 200 rows whose first was stamped by a clock ahead of the one
that stamped the others. -/
def stampedAhead : Start Update where
  store :=
    { tables := ⟨none, ⟨1, {.edit 1}, 60000⟩ ::
        (List.range 199).map fun i => ⟨i + 2, {.edit 2}, 0⟩⟩
      nextId := 201
      clock := 60000 }
  sequenced := by
    refine ⟨by simp, by decide, ?_⟩
    simp only [List.forall_mem_cons, List.mem_map, List.mem_range, forall_exists_index, and_imp,
      forall_apply_eq_imp_iff₂]
    exact ⟨by decide, fun i hi => by omega⟩

/-- The compaction folds the rows above the first one and deletes it with them. -/
theorem reopened_behind_stampedAhead :
    ¬ ∀ s, run (step false "project:file") (Site.init stampedAhead) twoVisits = some s →
      ∀ r, s.doc.creation r = .ready → ∀ k, k < r → s.doc.creation k = .ready →
        (s.work k).ydoc ⊆ (s.work r).initial := by
  intro hclaim
  have hrun : (run (step false "project:file") (Site.init stampedAhead) twoVisits).map (fun s =>
      (s.doc.creation 0, s.doc.creation 1, (s.work 0).ydoc, (s.work 1).initial)) =
      some (.ready, .ready, {.edit 1, .edit 2, .edit 7}, {.edit 2, .edit 7}) := by decide +kernel
  obtain ⟨s, hs, hfields⟩ := Option.map_eq_some_iff.mp hrun
  simp only [Prod.mk.injEq] at hfields
  obtain ⟨hready, hready', hydoc, hinitial⟩ := hfields
  have hsub := hclaim s hs 1 hready' 0 Nat.zero_lt_one hready
  rw [hydoc, hinitial] at hsub
  exact absurd hsub (by decide)

end CollabIDE.Collab.Reopen
