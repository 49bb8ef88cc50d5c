import CollabIDE.Lib.Machine
import CollabIDE.Persistence.Turns
/-!
# The buffer of a room from its opening to its eviction

`attachPersistence` on one document, whatever its store calls answer, with the
eviction of `leaveRoom` at the end.  The history of the buffer is recorded
beside it: the updates observed, the batch each flush captured and what became
of each append.
-/

namespace CollabIDE.Persistence.Lifetime

open CollabIDE.Lib.Machine CollabIDE.Persistence.DocStore CollabIDE.Persistence.Buffer
open CollabIDE.Persistence.Turns

variable {υ : Type}

/-- A call of `store.appendUpdate`. -/
structure AppendCall (υ : Type) where
  /-- The number of the flush that captured its batch. -/
  flush : Nat
  batch : List (Chunk υ)
  /-- It was started after the eviction had requested the final flush. -/
  late : Bool
  deriving DecidableEq

structure Room (υ : Type) where
  ydoc : Finset υ
  store : Store υ
  buffer : DocPersistence υ
  /-- `File.content`, once it was materialized. -/
  content : Option String
  observed : List (Chunk υ)
  /-- The batches of the flushes, in the order of the calls. -/
  captured : List (List (Chunk υ))
  appending : Option (AppendCall υ)
  /-- The appends that came back: the id of the row, or `none` after a failure. -/
  appended : List (AppendCall υ × Option Nat)
  /-- The flush the eviction waits for. -/
  ticket : Option Nat
  destroyed : Bool

inductive Event (υ : Type)
  | update (edits : Finset υ) (byteLength : Nat)
  | timerFires
  | flush
  | write (e : WriteEvent υ)
  /-- The last connection leaves. -/
  | leave
  | destroy
  | tick (milliseconds : Nat)

/-- The store a room is opened on. -/
structure Opening (υ : Type) where
  store : Store υ
  ordered : store.Ordered

/-- An empty file that `createRoom` has just seeded. -/
def Opening.seeded : Opening υ where
  store := ⟨writeSnapshot Tables.empty ∅ 0, 1, 0⟩
  ordered := by
    refine ⟨?_, Nat.zero_lt_one, ?_, ?_⟩ <;> simp [writeSnapshot, Tables.empty,
      CollabIDE.Lib.WatermarkLog.StampsMonotone]

variable [DecidableEq υ]

/-- `createRoom` attaches the buffer once everything stored is applied. -/
def Room.init (opening : Opening υ) : Room υ where
  ydoc := contents opening.store.tables
  store := opening.store
  buffer := .fresh
  content := none
  observed := []
  captured := []
  appending := none
  appended := []
  ticket := none
  destroyed := false

/-- The buffer after a turn, and the batches captured in it. -/
def Room.setBuffer (s : Room υ) (buffer : DocPersistence υ) : Room υ :=
  { s with buffer, captured := s.captured ++ buffer.chain.drop s.buffer.chain.length }

/-- The update event of a transaction carries what the document did not have. -/
def Room.update (s : Room υ) (edits : Finset υ) (byteLength : Nat) : Room υ :=
  let update : Chunk υ := ⟨edits \ s.ydoc, byteLength⟩
  if update.update = ∅ then s
  else
    { s.setBuffer (onUpdate s.buffer update) with
      ydoc := s.ydoc ∪ update.update
      observed := s.observed ++ [update] }

/-- The append in flight after a turn of `writeBatch`. -/
def Room.nextAppending (s : Room υ) : WriteEvent υ → Option (AppendCall υ)
  | .start =>
    match s.buffer.chain with
    | (chunk :: batch) :: _ => some ⟨s.buffer.settled, chunk :: batch, s.ticket.isSome⟩
    | _ => none
  | .append _ | .appendFails _ => none
  | _ => s.appending

/-- The appends that have come back after it. -/
def Room.nextAppended (s : Room υ) : WriteEvent υ → List (AppendCall υ × Option Nat)
  | .append id => s.appended ++ s.appending.toList.map fun a => (a, some id)
  | .appendFails _ => s.appended ++ s.appending.toList.map fun a => (a, none)
  | _ => s.appended

/-- `materializeContent` writes the text that was read when the append returned. -/
def Room.nextContent (text : Finset υ → String) (s : Room υ) (e : WriteEvent υ) : Option String :=
  match e, s.buffer.writing with
  | .materialize true, .materializing ydoc => some (text ydoc)
  | _, _ => s.content

/-- The text is that of the room's document. -/
def Room.mayTurn (s : Room υ) : WriteEvent υ → Bool
  | .resume ydoc => ydoc = s.ydoc
  | _ => true

def Room.write (text : Finset υ → String) (docId : String) (s : Room υ) (e : WriteEvent υ) :
    Option (Room υ) :=
  if s.mayTurn e then
    (writeStep docId s.store s.buffer e).map fun p =>
      { s with
        store := p.1
        buffer := p.2
        content := s.nextContent text e
        appending := s.nextAppending e
        appended := s.nextAppended e }
  else none

def step (text : Finset υ → String) (docId : String) (s : Room υ) : Event υ → Option (Room υ)
  -- once its last connection has left, nothing applies an update to the document
  | .update edits byteLength => if s.ticket.isNone then some (s.update edits byteLength) else none
  | .timerFires => (timerFires s.buffer).map s.setBuffer
  | .flush => some (s.setBuffer (flush s.buffer))
  | .write e => s.write text docId e
  | .leave =>
    if s.ticket.isNone then
      some { s.setBuffer (flush s.buffer) with ticket := some (flush s.buffer).requested }
    else none
  | .destroy =>
    match s.ticket with
    | some ticket =>
      if ticket ≤ s.buffer.settled ∧ s.destroyed = false then
        some { s with buffer := detach s.buffer, destroyed := true }
      else none
    | none => none
  | .tick milliseconds =>
    some { s with store := { s.store with clock := s.store.clock + milliseconds } }

/-! ## The forms of a step -/

/-- The update joins the buffer. -/
def Room.push (s : Room υ) (update : Chunk υ) (timer : Bool) : Room υ :=
  { s with
    ydoc := s.ydoc ∪ update.update
    observed := s.observed ++ [update]
    buffer := { s.buffer with
      buffered := s.buffer.buffered ++ [update]
      bufferedBytes := s.buffer.bufferedBytes + update.byteLength
      timer := timer } }

/-- A call of `flush`. -/
def Room.flushed (s : Room υ) : Room υ :=
  { s with buffer := flush s.buffer, captured := s.captured ++ [s.buffer.buffered] }

omit [DecidableEq υ] in
theorem setBuffer_flush (s : Room υ) : s.setBuffer (flush s.buffer) = s.flushed := by
  simp [Room.setBuffer, Room.flushed, flush]

theorem update_cases (s : Room υ) (edits : Finset υ) (byteLength : Nat) :
    s.update edits byteLength = s ∨
      ∃ update timer, update.update.Nonempty ∧ Disjoint s.ydoc update.update ∧
        (s.update edits byteLength = s.push update timer ∨
          s.update edits byteLength = (s.push update timer).flushed) := by
  unfold Room.update
  by_cases hempty : edits \ s.ydoc = ∅
  · exact Or.inl (if_pos hempty)
  have hne : (edits \ s.ydoc).Nonempty := Finset.nonempty_iff_ne_empty.mpr hempty
  rw [if_neg hempty]
  by_cases hfull : flushBytes ≤ s.buffer.bufferedBytes + byteLength
  · refine Or.inr ⟨⟨_, byteLength⟩, s.buffer.timer, hne, Finset.disjoint_sdiff, Or.inr ?_⟩
    simp [onUpdate, hfull, Room.setBuffer, Room.push, Room.flushed, flush]
  · refine Or.inr ⟨⟨_, byteLength⟩, true, hne, Finset.disjoint_sdiff, Or.inl ?_⟩
    simp [onUpdate, hfull, Room.setBuffer, Room.push]

/-- The forms of a step. -/
inductive Took (text : Finset υ → String) (docId : String) (s : Room υ) :
    Event υ → Room υ → Prop
  | nothing {edits : Finset υ} {byteLength : Nat} : Took text docId s (.update edits byteLength) s
  | push {edits : Finset υ} {byteLength : Nat} {update : Chunk υ} {timer : Bool}
      (hticket : s.ticket = none) (hne : update.update.Nonempty)
      (hnew : Disjoint s.ydoc update.update) :
    Took text docId s (.update edits byteLength) (s.push update timer)
  /-- The size trigger. -/
  | pushFull {edits : Finset υ} {byteLength : Nat} {update : Chunk υ} {timer : Bool}
      (hticket : s.ticket = none) (hne : update.update.Nonempty)
      (hnew : Disjoint s.ydoc update.update) :
    Took text docId s (.update edits byteLength) (s.push update timer).flushed
  | timerFires : Took text docId s .timerFires s.flushed
  | flush : Took text docId s .flush s.flushed
  | write {e : WriteEvent υ} {store : Store υ} {buffer : DocPersistence υ}
      (hresume : ∀ ydoc, e = .resume ydoc → ydoc = s.ydoc)
      (hwrite : writeStep docId s.store s.buffer e = some (store, buffer)) :
    Took text docId s (.write e)
      { s with
        store := store
        buffer := buffer
        content := s.nextContent text e
        appending := s.nextAppending e
        appended := s.nextAppended e }
  | leave (hticket : s.ticket = none) :
    Took text docId s .leave { s.flushed with ticket := some (s.buffer.requested + 1) }
  | destroy {ticket : Nat} (timer : Bool) (hticket : s.ticket = some ticket)
      (hsettled : ticket ≤ s.buffer.settled) :
    Took text docId s .destroy
      { s with buffer := { s.buffer with detached := true, timer := timer }, destroyed := true }
  | tick {milliseconds : Nat} :
    Took text docId s (.tick milliseconds)
      { s with store := { s.store with clock := s.store.clock + milliseconds } }

theorem took {text : Finset υ → String} {docId : String} {s s' : Room υ} {e : Event υ}
    (h : step text docId s e = some s') : Took text docId s e s' := by
  cases e with
  | update edits byteLength =>
      simp only [step, Option.isNone_iff_eq_none, Option.ite_none_right_eq_some,
        Option.some.injEq] at h
      obtain ⟨hticket, rfl⟩ := h
      rcases update_cases s edits byteLength with
        heq | ⟨update, timer, hne, hnew, heq | heq⟩ <;> rw [heq]
      · exact .nothing
      · exact .push hticket hne hnew
      · exact .pushFull hticket hne hnew
  | timerFires =>
      simp only [step, Option.map_eq_some_iff, timerFires, Option.ite_none_right_eq_some,
        Option.some.injEq] at h
      obtain ⟨_, ⟨-, rfl⟩, rfl⟩ := h
      rw [setBuffer_flush]
      exact .timerFires
  | flush =>
      simp only [step, setBuffer_flush, Option.some.injEq] at h
      exact h ▸ .flush
  | write e =>
      simp only [step, Room.write, Option.ite_none_right_eq_some, Option.map_eq_some_iff] at h
      obtain ⟨hmay, ⟨store, buffer⟩, hwrite, rfl⟩ := h
      refine .write ?_ hwrite
      rintro ydoc rfl
      simpa [Room.mayTurn] using hmay
  | leave =>
      simp only [step, setBuffer_flush, Option.isNone_iff_eq_none, Option.ite_none_right_eq_some,
        Option.some.injEq] at h
      obtain ⟨hticket, rfl⟩ := h
      exact .leave hticket
  | destroy =>
      cases hticket : s.ticket with
      | none => simp [step, hticket] at h
      | some ticket =>
          simp only [step, hticket, Option.ite_none_right_eq_some, Option.some.injEq] at h
          obtain ⟨⟨hsettled, -⟩, rfl⟩ := h
          obtain ⟨timer, heq⟩ := detach_eq s.buffer
          rw [heq]
          have hdestroy : Took text docId s .destroy _ := .destroy timer hticket hsettled
          simpa only [hticket] using hdestroy
  | tick milliseconds =>
      simp only [step, Option.some.injEq] at h
      exact h ▸ .tick

/-! ## What every run keeps -/

/-- The document is what is stored and what is still to be written. -/
structure Inv (s : Room υ) : Prop where
  ordered : s.store.Ordered
  current : Current s.store s.buffer
  counted : Counted s.buffer
  applied : ∀ chunk ∈ s.observed, chunk.update ⊆ s.ydoc
  doc : ∀ u ∈ s.ydoc, u ∈ contents s.store.tables ∨ Unwritten s.buffer u
  appending : ∀ merged, s.buffer.writing = .appending merged ↔
    ∃ a, s.appending = some a ∧ mergeUpdates a.batch = merged

theorem inv_init (opening : Opening υ) : Inv (Room.init opening) where
  ordered := opening.ordered
  current := fun _ _ h => by cases h
  counted := rfl
  applied := by simp [Room.init]
  doc := fun u hu => Or.inl hu
  appending := by simp [Room.init, DocPersistence.fresh]

theorem inv_push {s : Room υ} (hs : Inv s) (update : Chunk υ) (timer : Bool) :
    Inv (s.push update timer) where
  ordered := hs.ordered
  current := hs.current
  counted := hs.counted
  applied := fun chunk hchunk => by
    rcases List.mem_append.mp hchunk with hold | hnew
    · exact (hs.applied chunk hold).trans Finset.subset_union_left
    · rw [List.mem_singleton.mp hnew]
      exact Finset.subset_union_right
  doc := fun u hu => by
    rcases Finset.mem_union.mp hu with hold | hnew
    · rcases hs.doc u hold with hstored | ⟨chunk, hchunk, hu⟩ | hwriting
      · exact Or.inl hstored
      · exact Or.inr (Or.inl ⟨chunk, List.mem_append_left _ hchunk, hu⟩)
      · exact Or.inr (Or.inr hwriting)
    · exact Or.inr (Or.inl ⟨update, List.mem_append_right _ (List.mem_singleton_self _), hnew⟩)
  appending := hs.appending

theorem inv_flushed {s : Room υ} (hs : Inv s) : Inv s.flushed where
  ordered := hs.ordered
  current := hs.current
  counted := counted_flush hs.counted
  applied := hs.applied
  doc := fun u hu => (hs.doc u hu).imp_right unwritten_flush.mpr
  appending := hs.appending

theorem appending_write {s : Room υ} (hs : Inv s) {docId : String} {e : WriteEvent υ}
    {store : Store υ} {buffer : DocPersistence υ}
    (h : writeStep docId s.store s.buffer e = some (store, buffer)) (merged : Finset υ) :
    buffer.writing = .appending merged ↔
      ∃ a, s.nextAppending e = some a ∧ mergeUpdates a.batch = merged := by
  have hnone : (∀ m, s.buffer.writing ≠ .appending m) → s.appending = none := by
    intro hnot
    cases happending : s.appending with
    | none => rfl
    | some a => exact absurd ((hs.appending _).mpr ⟨a, happending, rfl⟩) (hnot _)
  cases wrote h with
  | skip hidle hchain => simp [Room.nextAppending, hchain, DocPersistence.settle]
  | @start batch rest hne hidle hchain =>
      obtain ⟨chunk, batch, rfl⟩ := List.exists_cons_of_ne_nil hne
      simp [Room.nextAppending, hchain]
  | append => simp [Room.nextAppending]
  | appendFails => simp [Room.nextAppending, DocPersistence.settle]
  | compactionFails hwriting =>
      simp [Room.nextAppending, hnone hwriting, DocPersistence.settle]
  | _ hwriting =>
      simp [Room.nextAppending, hnone (by simp [hwriting]), DocPersistence.settle]

theorem inv_step {text : Finset υ → String} {docId : String} {s s' : Room υ} {e : Event υ}
    (hs : Inv s) (h : step text docId s e = some s') : Inv s' := by
  cases took h with
  | nothing => exact hs
  | push => exact inv_push hs _ _
  | pushFull => exact inv_flushed (inv_push hs _ _)
  | timerFires => exact inv_flushed hs
  | flush => exact inv_flushed hs
  | leave =>
      have hflushed := inv_flushed hs
      exact ⟨hflushed.ordered, hflushed.current, hflushed.counted, hflushed.applied, hflushed.doc,
        hflushed.appending⟩
  | write _ hwrite =>
      obtain ⟨-, hcurrent, hstored⟩ :=
        stored_subset hs.ordered.sequenced hs.current (hs.ordered.splits _) hwrite
      refine ⟨ordered_turn hs.ordered hs.current hwrite, hcurrent, counted_turn hs.counted hwrite,
        hs.applied, fun u hu => ?_, appending_write hs hwrite⟩
      rcases hs.doc u hu with hold | hunwritten
      · exact Or.inl (hstored hold)
      · exact ((unwritten_turn hs.ordered.sequenced hwrite u).1 hunwritten).symm
  | destroy => exact ⟨hs.ordered, hs.current, hs.counted, hs.applied, hs.doc, hs.appending⟩
  | tick =>
      exact ⟨hs.ordered.tick (Int.natCast_nonneg _), hs.current, hs.counted, hs.applied, hs.doc,
        hs.appending⟩

theorem inv_run {text : Finset υ → String} {docId : String} {opening : Opening υ}
    {events : List (Event υ)} {s : Room υ}
    (h : run (step text docId) (Room.init opening) events = some s) : Inv s :=
  run_invariant (fun _ _ _ => inv_step) (inv_init opening) h

end CollabIDE.Persistence.Lifetime
