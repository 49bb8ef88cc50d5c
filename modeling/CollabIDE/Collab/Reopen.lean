import CollabIDE.Collab.RoomsInvariant
import CollabIDE.Collab.Updates
import CollabIDE.Persistence.Buffer
import Mathlib.Data.Finset.Image
/-!
# Closing and reopening a document

The rooms of one document of one process, with what they load and write.  The
control of the rooms is the machine of `Rooms`; this module adds the reads and
the seed of `createRoom`, the Y.Doc of each room, its write buffer and the
stored tables.  Every store call succeeds here.
-/

namespace CollabIDE.Collab.Reopen

open CollabIDE.Lib.Machine CollabIDE.Collab.Rooms
open CollabIDE.Persistence.DocStore CollabIDE.Persistence.Buffer

/-- The await `createRoom` is suspended at, past `await inFlight`. -/
inductive Loading
  | lookingUp
  | readingSnapshot (content : String)
  | readingTail (content : String) (snapshot : Option (DocSnapshot Update))
  | seeding (content : String)
  | attached

/-- A room's document and buffer. -/
structure Work where
  loading : Loading
  /-- The document `createRoom` returned. -/
  initial : Finset Update
  ydoc : Finset Update
  buffer : DocPersistence Update
  /-- The flush its eviction waits for. -/
  ticket : Nat

def Work.fresh : Work := ⟨.lookingUp, ∅, ∅, .fresh, 0⟩

/-- `createRoom` returns a room with this document. -/
def Work.opened (w : Work) (ydoc : Finset Update) : Work :=
  { w with loading := .attached, initial := ydoc, ydoc := ydoc }

structure Site where
  doc : Doc
  work : RoomId → Work
  store : Store Update
  /-- The room that seeded the document, and the text it read. -/
  seed : Option (RoomId × String)

def Site.init (start : Start Update) : Site :=
  ⟨Doc.empty, fun _ => .fresh, start.store, none⟩

def Site.setWork (s : Site) (r : RoomId) (w : Work) : Site :=
  { s with work := Function.update s.work r w }

/-- The eviction's flush, captured in the turn that empties the room. -/
def Work.evict (w : Work) : Work :=
  { w with buffer := flush w.buffer, ticket := (flush w.buffer).requested }

inductive Event
  /-- A turn of the rooms that reads and writes no document. -/
  | control (e : Rooms.Event)
  /-- `prisma.file.findFirst`: the content, or `none` for no such file. -/
  | lookUp (r : RoomId) (file : Option String)
  | readSnapshot (r : RoomId)
  | readTail (r : RoomId)
  | writeSeed (r : RoomId)
  /-- A connection applies edits to its room's document. -/
  | edit (c : ConnId) (edits : Finset Nat) (byteLength : Nat)
  | timerFires (r : RoomId)
  | flush (r : RoomId)
  | write (r : RoomId) (e : WriteEvent Update)
  /-- The clock of the database moves on, or is set back. -/
  | tick (milliseconds : Int)

/-- What a turn of the rooms does to their documents and buffers. -/
def controlWork (s : Site) : Rooms.Event → RoomId → Work
  | .resumeLeave c =>
    match evicted s.doc c with
    | some r => Function.update s.work r (s.work r).evict
    | none => s.work
  | .finishLeave c =>
    match s.doc.conn c with
    | .evicting r =>
      Function.update s.work r { s.work r with buffer := detach (s.work r).buffer }
    | _ => s.work
  | _ => s.work

/-- A room resolves through the events of `createRoom` below only, and an
eviction's write settles once the chain it waits for has. -/
def mayTurn (s : Site) : Rooms.Event → Bool
  | .create .. => false
  | .writeSettles r => (s.work r).ticket ≤ (s.work r).buffer.settled
  | _ => true

def control (docBusEnabled : Bool) (s : Site) (e : Rooms.Event) : Option Site :=
  if mayTurn s e then
    (Rooms.step docBusEnabled s.doc e).map fun doc => { s with doc, work := controlWork s e }
  else none

/-- `createRoom` resolves. -/
def create (docBusEnabled : Bool) (s : Site) (r : RoomId) (found : Bool) : Option Site :=
  (Rooms.step docBusEnabled s.doc (.create r found)).map fun doc => { s with doc }

/-- The update event of an edit carries what the document did not have. -/
def applyEdits (w : Work) (edits : Finset Nat) (byteLength : Nat) : Work :=
  let update := edits.image Update.edit \ w.ydoc
  if update = ∅ then w
  else { w with ydoc := w.ydoc ∪ update, buffer := onUpdate w.buffer ⟨update, byteLength⟩ }

/-- The turns of `writeBatch` for a room: no store call fails, and the text that
is materialized is that of the room's document. -/
def takesTurn (w : Work) : WriteEvent Update → Bool
  | .resume ydoc => ydoc = w.ydoc
  | .appendFails _ | .materialize false | .compactionFails | .compact (some _) => false
  | _ => true

def step (docBusEnabled : Bool) (docId : String) (s : Site) : Event → Option Site
  | .control e => control docBusEnabled s e
  | .lookUp r file =>
    match s.doc.creation r, (s.work r).loading with
    | .building, .lookingUp =>
      match file with
      | none => create docBusEnabled s r false
      | some content => some (s.setWork r { s.work r with loading := .readingSnapshot content })
    | _, _ => none
  | .readSnapshot r =>
    match (s.work r).loading with
    | .readingSnapshot content =>
      some (s.setWork r { s.work r with
        loading := .readingTail content (findSnapshot s.store.tables) })
    | _ => none
  | .readTail r =>
    match (s.work r).loading with
    | .readingTail content snapshot =>
      let loaded := loadedOf snapshot (findTail s.store.tables snapshot)
      if loaded.exists then
        create docBusEnabled (s.setWork r ((s.work r).opened (rebuild loaded))) r true
      else some (s.setWork r { s.work r with loading := .seeding content })
    | _ => none
  | .writeSeed r =>
    match (s.work r).loading with
    | .seeding content =>
      let s := { s.setWork r ((s.work r).opened (seedOf r content)) with
        store := { s.store with tables := writeSnapshot s.store.tables (seedOf r content) 0 }
        seed := some (r, content) }
      create docBusEnabled s r true
    | _ => none
  | .edit c edits byteLength =>
    match s.doc.conn c with
    | .joined r | .inside r => some (s.setWork r (applyEdits (s.work r) edits byteLength))
    | _ => none
  | .timerFires r =>
    (timerFires (s.work r).buffer).map fun buffer => s.setWork r { s.work r with buffer }
  | .flush r =>
    if s.doc.creation r = .ready then
      some (s.setWork r { s.work r with buffer := flush (s.work r).buffer })
    else none
  | .write r e =>
    if takesTurn (s.work r) e then
      (writeStep docId s.store (s.work r).buffer e).map fun p =>
        { s.setWork r { s.work r with buffer := p.2 } with store := p.1 }
    else none
  | .tick milliseconds =>
    some { s with store := { s.store with clock := s.store.clock + milliseconds } }

/-- Where a compaction reads, no row that is too young to fold lies below one
that is old enough. -/
def Splits (s : Site) : Event → Prop
  | .write _ e => e.Splits s.store.tables
  | _ => True

/-- The clock of the database is set back. -/
def setsBack : Event → Bool
  | .tick milliseconds => milliseconds < 0
  | _ => false

/-! ## What a step does -/

section Steps

variable {docBusEnabled : Bool} {docId : String} {s s' : Site} {r : RoomId}

theorem create_eq_some {found : Bool} (h : create docBusEnabled s r found = some s') :
    s.doc.creation r = .building ∧
      s' = { s with doc := s.doc.setCreation r (if found then .ready else .absent) } := by
  simp only [create, Rooms.step, Option.map_eq_some_iff, Option.ite_none_right_eq_some,
    Option.some.injEq] at h
  obtain ⟨doc, ⟨hr, rfl⟩, rfl⟩ := h
  exact ⟨hr, rfl⟩

theorem lookUp_eq_some {file : Option String}
    (h : step docBusEnabled docId s (.lookUp r file) = some s') :
    s.doc.creation r = .building ∧ (s.work r).loading = .lookingUp ∧
      ((file = none ∧ s' = { s with doc := s.doc.setCreation r .absent }) ∨
        ∃ content, file = some content ∧
          s' = s.setWork r { s.work r with loading := .readingSnapshot content }) := by
  cases hr : s.doc.creation r <;> simp only [step, hr, reduceCtorEq] at h
  cases hloading : (s.work r).loading <;> simp only [hloading, reduceCtorEq] at h
  refine ⟨rfl, rfl, ?_⟩
  cases file with
  | none => exact Or.inl ⟨rfl, (create_eq_some h).2⟩
  | some content => exact Or.inr ⟨content, rfl, (Option.some.inj h).symm⟩

theorem readSnapshot_eq_some (h : step docBusEnabled docId s (.readSnapshot r) = some s') :
    ∃ content, (s.work r).loading = .readingSnapshot content ∧
      s' = s.setWork r { s.work r with
        loading := .readingTail content (findSnapshot s.store.tables) } := by
  cases hloading : (s.work r).loading <;> simp only [step, hloading, reduceCtorEq] at h
  exact ⟨_, rfl, (Option.some.inj h).symm⟩

theorem readTail_eq_some (h : step docBusEnabled docId s (.readTail r) = some s') :
    ∃ content snapshot, (s.work r).loading = .readingTail content snapshot ∧
      (((loadedOf snapshot (findTail s.store.tables snapshot)).exists = true ∧
          s.doc.creation r = .building ∧
          s' = { s.setWork r ((s.work r).opened
              (rebuild (loadedOf snapshot (findTail s.store.tables snapshot)))) with
            doc := s.doc.setCreation r .ready }) ∨
        ((loadedOf snapshot (findTail s.store.tables snapshot)).exists = false ∧
          s' = s.setWork r { s.work r with loading := .seeding content })) := by
  cases hloading : (s.work r).loading <;> simp only [step, hloading, reduceCtorEq] at h
  next content snapshot =>
    refine ⟨content, snapshot, rfl, ?_⟩
    cases hexists : (loadedOf snapshot (findTail s.store.tables snapshot)).exists with
    | true =>
        rw [if_pos hexists] at h
        exact Or.inl ⟨rfl, create_eq_some h⟩
    | false =>
        rw [hexists, if_neg Bool.false_ne_true] at h
        exact Or.inr ⟨rfl, (Option.some.inj h).symm⟩

theorem writeSeed_eq_some (h : step docBusEnabled docId s (.writeSeed r) = some s') :
    ∃ content, (s.work r).loading = .seeding content ∧ s.doc.creation r = .building ∧
      s' = { s.setWork r ((s.work r).opened (seedOf r content)) with
        doc := s.doc.setCreation r .ready
        store := { s.store with tables := writeSnapshot s.store.tables (seedOf r content) 0 }
        seed := some (r, content) } := by
  cases hloading : (s.work r).loading <;> simp only [step, hloading, reduceCtorEq] at h
  exact ⟨_, rfl, create_eq_some h⟩

theorem edit_eq_some {c : ConnId} {edits : Finset Nat} {byteLength : Nat}
    (h : step docBusEnabled docId s (.edit c edits byteLength) = some s') :
    ∃ r, (s.doc.conn c).Holds r ∧ s' = s.setWork r (applyEdits (s.work r) edits byteLength) := by
  cases hc : s.doc.conn c <;> simp only [step, hc, reduceCtorEq] at h
  · exact ⟨_, Or.inl rfl, (Option.some.inj h).symm⟩
  · exact ⟨_, Or.inr (Or.inl rfl), (Option.some.inj h).symm⟩

theorem timerFires_eq_some (h : step docBusEnabled docId s (.timerFires r) = some s') :
    ∃ buffer, timerFires (s.work r).buffer = some buffer ∧
      s' = s.setWork r { s.work r with buffer } := by
  obtain ⟨buffer, hbuffer, rfl⟩ := Option.map_eq_some_iff.mp h
  exact ⟨buffer, hbuffer, rfl⟩

theorem flush_eq_some (h : step docBusEnabled docId s (.flush r) = some s') :
    s.doc.creation r = .ready ∧
      s' = s.setWork r { s.work r with buffer := flush (s.work r).buffer } := by
  simp only [step, Option.ite_none_right_eq_some, Option.some.injEq] at h
  exact ⟨h.1, h.2.symm⟩

end Steps

end CollabIDE.Collab.Reopen
