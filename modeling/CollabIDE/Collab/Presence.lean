import CollabIDE.Collab.RoomsInvariant
import CollabIDE.Lib.Varint
import Mathlib.Data.Finset.Dedup
import Mathlib.Data.Finset.SDiff
/-!
# Presence

The awareness of the rooms of one document on one process: what the observer of
`attachRoomObservers` files under a socket, and what the close listener of
`handleConnection` takes away again.  A frame here is the payload of an
awareness frame; y-protocols is a parameter.  The history of what each socket
published is a ghost.
-/

namespace CollabIDE.Collab.Presence

open CollabIDE.Lib.Machine CollabIDE.Collab.Rooms

abbrev Bytes := List UInt8

abbrev ClientId := Nat

/-- What an update event of the awareness reports; empty where none is emitted. -/
structure Change where
  added : List ClientId
  updated : List ClientId
  removed : List ClientId
  deriving DecidableEq

/-- What `applyAwarenessUpdate` leaves behind. -/
structure AwarenessRead (A : Type) where
  awareness : A
  change : Change
  throws : Bool

structure AwarenessProtocol (A : Type) where
  newAwareness : A
  /-- `getStates().has(clientID)`. -/
  hasState : A → ClientId → Bool
  applyAwarenessUpdate : A → Bytes → AwarenessRead A
  /-- The order of the clients does not matter. -/
  removeAwarenessStates : A → Finset ClientId → A

/-- `removeAwarenessStates` drops the states of these clients and no other. -/
def Removes {A : Type} (P : AwarenessProtocol A) : Prop :=
  ∀ a clients id, P.hasState (P.removeAwarenessStates a clients) id =
    (P.hasState a id && id ∉ clients)

/-- An update event a socket caused. -/
structure Publication where
  conn : ConnId
  change : Change
  deriving DecidableEq

structure State (A : Type) where
  doc : Doc
  awareness : RoomId → A
  /-- The upgrade has completed. -/
  known : ConnId → Bool
  /-- `readyState` is `OPEN`. -/
  isOpen : ConnId → Bool
  /-- The close event has fired. -/
  closed : ConnId → Bool
  /-- Frames that wait for the room. -/
  queued : ConnId → List Bytes
  awarenessIds : ConnId → Finset ClientId
  history : List Publication

variable {A : Type}

def State.init (awareness : A) : State A :=
  ⟨Doc.empty, fun _ => awareness, fun _ => false, fun _ => false, fun _ => false, fun _ => [],
    fun _ => ∅, []⟩

def State.setAwareness (s : State A) (r : RoomId) (awareness : A) : State A :=
  { s with awareness := Function.update s.awareness r awareness }

/-- `socket.close` with a code. -/
def reject (s : State A) (c : ConnId) : State A :=
  { s with isOpen := Function.update s.isOpen c false }

/-- The observer's part for a socket: added and updated ids are filed under it,
removed ones are not any more. -/
def file (ids : Finset ClientId) (change : Change) : Finset ClientId :=
  (ids ∪ (change.added ++ change.updated).toFinset) \ change.removed.toFinset

section Step

variable (P : AwarenessProtocol A) (docBusEnabled : Bool)

/-- `handleMessage` for an awareness frame, with the observer of its event. -/
def handleAwareness (r : RoomId) (c : ConnId) (s : State A) (payload : Bytes) : State A :=
  let read := P.applyAwarenessUpdate (s.awareness r) payload
  let s : State A :=
    { s.setAwareness r read.awareness with history := s.history ++ [⟨c, read.change⟩] }
  let s :=
    if (s.doc.room r).observed then
      { s with awarenessIds :=
          Function.update s.awarenessIds c (file (s.awarenessIds c) read.change) }
    else s
  if read.throws then reject s c else s

inductive Event
  /-- `handleUpgrade` has completed. -/
  | connect (c : ConnId)
  /-- `handleConnection` has read the membership and calls `joinRoom`. -/
  | join (c : ConnId)
  /-- `handleConnection` resumes from `joinRoom`. -/
  | enter (c : ConnId)
  /-- An awareness frame. -/
  | frame (c : ConnId) (payload : Bytes)
  /-- The server closes the socket. -/
  | reject (c : ConnId)
  | close (c : ConnId)
  /-- An awareness frame of another instance. -/
  | remote (payload : Bytes)
  /-- The awareness drops states that were not renewed. -/
  | expire (r : RoomId) (clients : Finset ClientId)
  /-- `createRoom` returns a room, or `null`. -/
  | create (r : RoomId) (found : Bool)
  /-- A turn of the rooms that no event above takes. -/
  | control (e : Rooms.Event)

def stepDoc (s : State A) (e : Rooms.Event) : Option (State A) :=
  (Rooms.step docBusEnabled s.doc e).map fun doc => { s with doc }

/-- A socket whose listeners may still be called. -/
def State.hears (s : State A) (c : ConnId) : Prop := s.known c = true ∧ s.closed c = false

instance (s : State A) (c : ConnId) : Decidable (s.hears c) :=
  inferInstanceAs (Decidable (_ ∧ _))

/-- The close event, and the listener of a socket inside a room: the cursor
first, then the room. -/
def onClose (s : State A) (c : ConnId) : Option (State A) :=
  let closed := { reject s c with closed := Function.update s.closed c true }
  match s.doc.conn c with
  | .inside r =>
    stepDoc docBusEnabled
      (closed.setAwareness r (P.removeAwarenessStates (s.awareness r) (s.awarenessIds c)))
      (.leave c)
  | _ => some closed

def step (s : State A) : Event → Option (State A)
  | .connect c =>
    if s.known c then none
    else some { s with
      known := Function.update s.known c true
      isOpen := Function.update s.isOpen c true }
  | .join c => if s.known c then stepDoc docBusEnabled s (.join c) else none
  | .enter c =>
    match s.doc.conn c with
    | .joined r =>
      (stepDoc docBusEnabled s (.attach c)).map fun s =>
        (s.queued c).foldl (handleAwareness P r c)
          { s with queued := Function.update s.queued c [] }
    | .refused => some (reject s c)
    | _ => none
  | .frame c payload =>
    if s.hears c then
      match s.doc.conn c with
      | .inside r => some (handleAwareness P r c s payload)
      | _ => some { s with queued := Function.update s.queued c (s.queued c ++ [payload]) }
    else none
  | .reject c => if s.known c then some (reject s c) else none
  | .close c => if s.hears c then onClose P docBusEnabled s c else none
  | .remote payload =>
    s.doc.handler.map fun r =>
      s.setAwareness r (P.applyAwarenessUpdate (s.awareness r) payload).awareness
  | .expire r clients =>
    some (s.setAwareness r (P.removeAwarenessStates (s.awareness r) clients))
  | .create r found =>
    stepDoc docBusEnabled (if found then s.setAwareness r P.newAwareness else s) (.create r found)
  | .control e => if e.isControl then stepDoc docBusEnabled s e else none

end Step

/-! ## What was published, and since when -/

def Publication.publishes (p : Publication) (c : ConnId) (id : ClientId) : Prop :=
  p.conn = c ∧ (id ∈ p.change.added ∨ id ∈ p.change.updated)

def Publication.withdraws (p : Publication) (c : ConnId) (id : ClientId) : Prop :=
  p.conn = c ∧ id ∈ p.change.removed

/-- After the last state `c` published for `id`, `c'` published one. -/
def PublishedSince (history : List Publication) (c c' : ConnId) (id : ClientId) : Prop :=
  ∃ before p after, history = before ++ p :: after ∧ p.publishes c id ∧
    (∀ q ∈ after, ¬ q.publishes c id) ∧ ∃ q ∈ after, q.publishes c' id

/-- `c` took its state for `id` back, and has not published one since. -/
def Withdrew (history : List Publication) (c : ConnId) (id : ClientId) : Prop :=
  ∃ before p after, history = before ++ p :: after ∧ p.withdraws c id ∧
    ∀ q ∈ after, ¬ q.publishes c id

theorem withdrew_concat {history : List Publication} {p : Publication} {c : ConnId}
    {id : ClientId} :
    Withdrew (history ++ [p]) c id ↔
      p.withdraws c id ∨ Withdrew history c id ∧ ¬ p.publishes c id := by
  constructor
  · rintro ⟨before, q, after, heq, hq, hafter⟩
    rcases List.eq_nil_or_concat after with rfl | ⟨after, last, rfl⟩
    · obtain ⟨-, hlast⟩ := List.append_inj' heq rfl
      obtain rfl := (List.cons.inj hlast).1
      exact Or.inl hq
    · rw [List.concat_eq_append, ← List.cons_append, ← List.append_assoc] at heq
      obtain ⟨rfl, hlast⟩ := List.append_inj' heq rfl
      obtain rfl := (List.cons.inj hlast).1
      refine Or.inr ⟨⟨before, q, after, rfl, hq, fun k hk => ?_⟩, ?_⟩
      · exact hafter k (by simp [hk])
      · exact hafter p (by simp)
  · rintro (hp | ⟨⟨before, q, after, rfl, hq, hafter⟩, hp⟩)
    · exact ⟨history, p, [], rfl, hp, nofun⟩
    · refine ⟨before, q, after ++ [p], by simp, hq, fun k hk => ?_⟩
      rcases List.mem_append.mp hk with hk | hk
      · exact hafter k hk
      · exact List.mem_singleton.mp hk ▸ hp

/-! ## The ids filed under a socket -/

section Filed

variable {P : AwarenessProtocol A} {docBusEnabled : Bool} {s s' : State A} {r : RoomId}
variable {c : ConnId}

/-- What is filed under a socket is what it published and did not take back. -/
structure Inv (docBusEnabled : Bool) (s : State A) : Prop where
  rooms : Rooms.Inv docBusEnabled s.doc
  observed : AllObserved s.doc
  filed : ∀ c id, id ∈ s.awarenessIds c ↔
    (∃ p ∈ s.history, p.publishes c id) ∧ ¬ Withdrew s.history c id

theorem mem_file {ids : Finset ClientId} {change : Change} {id : ClientId} :
    id ∈ file ids change ↔
      (id ∈ ids ∨ id ∈ change.added ∨ id ∈ change.updated) ∧ id ∉ change.removed := by
  simp [file]

/-- One more event in the history, and in what is filed under its socket. -/
theorem filed_concat {history : List Publication} {ids : ConnId → Finset ClientId}
    (h : ∀ c id, id ∈ ids c ↔ (∃ p ∈ history, p.publishes c id) ∧ ¬ Withdrew history c id)
    (p : Publication) (c : ConnId) (id : ClientId) :
    id ∈ Function.update ids p.conn (file (ids p.conn) p.change) c ↔
      (∃ q ∈ history ++ [p], q.publishes c id) ∧ ¬ Withdrew (history ++ [p]) c id := by
  have hmem : (∃ q ∈ history ++ [p], q.publishes c id) ↔
      (∃ q ∈ history, q.publishes c id) ∨ p.publishes c id := by
    simp only [List.mem_append, List.mem_singleton, or_and_right, exists_or, exists_eq_left]
  rw [hmem, withdrew_concat]
  by_cases hc : c = p.conn
  · subst hc
    have hpublishes : p.publishes p.conn id ↔ id ∈ p.change.added ∨ id ∈ p.change.updated :=
      and_iff_right rfl
    have hwithdraws : p.withdraws p.conn id ↔ id ∈ p.change.removed := and_iff_right rfl
    rw [Function.update_self, mem_file, h, hpublishes, hwithdraws]
    grind
  · have hnot : ¬ p.publishes c id ∧ ¬ p.withdraws c id :=
      ⟨fun hp => hc hp.1.symm, fun hp => hc hp.1.symm⟩
    rw [Function.update_of_ne hc, h, or_iff_left hnot.1, or_iff_right hnot.2,
      and_iff_left hnot.1]

theorem inv_init (awareness : A) : Inv docBusEnabled (State.init awareness) where
  rooms := inv_empty docBusEnabled
  observed := nofun
  filed c id := by simp [State.init]

theorem Inv.of_eq (hs : Inv docBusEnabled s) (hdoc : s'.doc = s.doc)
    (hids : s'.awarenessIds = s.awarenessIds) (hhistory : s'.history = s.history) :
    Inv docBusEnabled s' :=
  ⟨hdoc ▸ hs.rooms, hdoc ▸ hs.observed, hids ▸ hhistory ▸ hs.filed⟩

theorem inv_stepDoc (hs : Inv docBusEnabled s) {e : Rooms.Event}
    (h : stepDoc docBusEnabled s e = some s') : Inv docBusEnabled s' := by
  obtain ⟨doc, hdoc, rfl⟩ := Option.map_eq_some_iff.mp h
  exact ⟨Rooms.inv_step hs.rooms hdoc, allObserved_step hs.observed hdoc, hs.filed⟩

theorem inv_handleAwareness (hs : Inv docBusEnabled s) (hr : (s.doc.room r).observed = true)
    (payload : Bytes) :
    Inv docBusEnabled (handleAwareness P r c s payload) ∧
      (handleAwareness P r c s payload).doc = s.doc := by
  have hfiled := filed_concat hs.filed ⟨c, (P.applyAwarenessUpdate (s.awareness r) payload).change⟩
  have hobserved : (s.setAwareness r
      (P.applyAwarenessUpdate (s.awareness r) payload).awareness).doc.room r = s.doc.room r := rfl
  simp only [handleAwareness, hobserved, hr, if_true]
  split
  · exact ⟨⟨hs.rooms, hs.observed, hfiled⟩, rfl⟩
  · exact ⟨⟨hs.rooms, hs.observed, hfiled⟩, rfl⟩

theorem inv_handleQueued (hs : Inv docBusEnabled s) (hr : (s.doc.room r).observed = true)
    (queued : List Bytes) : Inv docBusEnabled (queued.foldl (handleAwareness P r c) s) := by
  induction queued generalizing s with
  | nil => exact hs
  | cons payload queued ih =>
      obtain ⟨hinv, hdoc⟩ := inv_handleAwareness (P := P) (c := c) hs hr payload
      exact ih hinv (by rw [hdoc, hr])

theorem inv_step (hs : Inv docBusEnabled s) {e : Event}
    (h : step P docBusEnabled s e = some s') : Inv docBusEnabled s' := by
  cases e with
  | connect c =>
      simp only [step, Option.ite_none_left_eq_some, Option.some.injEq] at h
      exact h.2 ▸ hs.of_eq rfl rfl rfl
  | join c =>
      simp only [step, Option.ite_none_right_eq_some] at h
      exact inv_stepDoc hs h.2
  | enter c =>
      simp only [step] at h
      split at h
      · next r hc =>
        obtain ⟨t, ht, rfl⟩ := Option.map_eq_some_iff.mp h
        have hinv := inv_stepDoc hs ht
        obtain ⟨doc, hdoc, rfl⟩ := Option.map_eq_some_iff.mp ht
        have hobserved := (step_observed hdoc r).mpr (Or.inr ⟨c, rfl, hc⟩)
        refine inv_handleQueued (Inv.of_eq hinv ?_ ?_ ?_) ?_ _
        · rfl
        · rfl
        · rfl
        · exact hobserved
      · obtain rfl := Option.some.inj h
        exact hs.of_eq rfl rfl rfl
      · cases h
  | frame c payload =>
      simp only [step, Option.ite_none_right_eq_some] at h
      obtain ⟨-, h⟩ := h
      split at h
      · next r hc =>
        obtain rfl := Option.some.inj h
        exact (inv_handleAwareness hs (hs.observed c r hc) payload).1
      · obtain rfl := Option.some.inj h
        exact hs.of_eq rfl rfl rfl
  | reject c =>
      simp only [step, Option.ite_none_right_eq_some, Option.some.injEq] at h
      exact h.2 ▸ hs.of_eq rfl rfl rfl
  | close c =>
      simp only [step, onClose, Option.ite_none_right_eq_some] at h
      obtain ⟨-, h⟩ := h
      split at h
      · refine inv_stepDoc (Inv.of_eq hs ?_ ?_ ?_) h
        · rfl
        · rfl
        · rfl
      · obtain rfl := Option.some.inj h
        exact hs.of_eq rfl rfl rfl
  | remote payload =>
      obtain ⟨r, -, rfl⟩ := Option.map_eq_some_iff.mp h
      exact hs.of_eq rfl rfl rfl
  | expire r clients =>
      obtain rfl := Option.some.inj h
      exact hs.of_eq rfl rfl rfl
  | create r found =>
      refine inv_stepDoc ?_ h
      cases found with
      | true => exact hs.of_eq rfl rfl rfl
      | false => exact hs
  | control e =>
      simp only [step, Option.ite_none_right_eq_some] at h
      exact inv_stepDoc hs h.2

/-! ## What a close takes away -/

/-- A close removes the state of a client only if no other open connection of
the room has published one since the closing one did. -/
def SparesLive (P : AwarenessProtocol A) (docBusEnabled : Bool) (s : State A) : Event → Prop
  | .close c => ∀ s' r id, onClose P docBusEnabled s c = some s' → s.doc.conn c = .inside r →
      P.hasState (s.awareness r) id = true → P.hasState (s'.awareness r) id = false →
      ∀ c' ∈ (s.doc.room r).conns, c' ≠ c → s.isOpen c' = true →
        ¬ PublishedSince s.history c c' id
  | _ => True

/-- What another open connection of the room has published since the closing
one did, the closing one has withdrawn, or it has no state any more. -/
def NothingTakenOver (P : AwarenessProtocol A) (s : State A) : Event → Prop
  | .close c => ∀ r, s.doc.conn c = .inside r →
      ∀ c' ∈ (s.doc.room r).conns, c' ≠ c → s.isOpen c' = true →
        ∀ id, PublishedSince s.history c c' id →
          Withdrew s.history c id ∨ P.hasState (s.awareness r) id = false
  | _ => True

theorem hasState_onClose (hP : Removes P) (hc : s.doc.conn c = .inside r)
    (h : onClose P docBusEnabled s c = some s') (id : ClientId) :
    P.hasState (s'.awareness r) id =
      (P.hasState (s.awareness r) id && id ∉ s.awarenessIds c) := by
  simp only [onClose, hc, stepDoc, Option.map_eq_some_iff] at h
  obtain ⟨doc, -, rfl⟩ := h
  simp only [State.setAwareness, Function.update_self]
  exact hP _ _ _

theorem sparesLive_iff (hP : Removes P) (hs : Inv docBusEnabled s) {e : Event}
    (h : step P docBusEnabled s e = some s') :
    SparesLive P docBusEnabled s e ↔ NothingTakenOver P s e := by
  cases e with
  | close c =>
      simp only [step, Option.ite_none_right_eq_some] at h
      have hfiled : ∀ id c', PublishedSince s.history c c' id → ¬ Withdrew s.history c id →
          id ∈ s.awarenessIds c := by
        rintro id c' ⟨before, p, after, hhistory, hp, -⟩ hkept
        exact (hs.filed c id).mpr ⟨⟨p, by simp [hhistory], hp⟩, hkept⟩
      constructor
      · intro hspares r hc c' hc' hne hopen id hsince
        by_contra hnot
        rw [not_or, Bool.not_eq_false] at hnot
        refine hspares s' r id h.2 hc hnot.2 ?_ c' hc' hne hopen hsince
        rw [hasState_onClose hP hc h.2]
        simp [hfiled id c' hsince hnot.1]
      · intro hnone t r id ht hc hhas hgone c' hc' hne hopen hsince
        rw [hasState_onClose hP hc ht, hhas, Bool.true_and] at hgone
        have hmem : id ∈ s.awarenessIds c := by simpa using hgone
        rcases hnone r hc c' hc' hne hopen id hsince with hwithdrew | hstateless
        · exact ((hs.filed c id).mp hmem).2 hwithdrew
        · simp [hhas] at hstateless
  | _ => exact Iff.rfl

/-- The closes of a run spare every live cursor just when none of them comes
after another open connection has taken over a cursor that is still there. -/
theorem closes_spare_live_iff (hP : Removes P) (awareness : A) (events : List Event)
    (h : run (step P docBusEnabled) (.init awareness) events = some s) :
    Meets (step P docBusEnabled) (SparesLive P docBusEnabled) (.init awareness) events ↔
      Meets (step P docBusEnabled) (NothingTakenOver P) (.init awareness) events :=
  meets_congr (P := Inv docBusEnabled) (fun _ _ _ hs ht => inv_step hs ht)
    (fun _ _ _ hs ht => sparesLive_iff hP hs ht) (inv_init awareness) h

/-! ## The wire format -/

/-- A client's clock, and whether it has a state. -/
structure Meta where
  clock : Nat
  hasState : Bool
  deriving DecidableEq

abbrev Awareness := List (ClientId × Meta)

def Awareness.find (awareness : Awareness) (id : ClientId) : Option Meta :=
  (List.find? (fun client => client.1 = id) awareness).map Prod.snd

/-- One client of an update: taken if its clock is newer, or if it withdraws the
state of this clock. -/
def applyClient (awareness : Awareness) (change : Change) (id clock : Nat) (isNull : Bool) :
    Awareness × Change :=
  let known := awareness.find id
  let currClock := (known.map Meta.clock).getD 0
  let prevState := (known.map Meta.hasState).getD false
  if currClock < clock ∨ currClock = clock ∧ isNull ∧ prevState then
    ((id, ⟨clock, !isNull⟩) :: awareness.filter fun client => client.1 ≠ id,
      if known.isNone ∧ !isNull then { change with added := change.added ++ [id] }
      else if known.isSome ∧ isNull then { change with removed := change.removed ++ [id] }
      else if !isNull then { change with updated := change.updated ++ [id] }
      else change)
  else (awareness, change)

/-- The id, the clock and the state of each client; what throws emits no event. -/
def applyClients : Nat → Bytes → Awareness → Change → AwarenessRead Awareness
  | 0, _, awareness, change => ⟨awareness, change, false⟩
  | count + 1, bytes, awareness, change =>
    match Lib.Varint.readNat bytes with
    | none => ⟨awareness, ⟨[], [], []⟩, true⟩
    | some (id, bytes) =>
      match Lib.Varint.readNat bytes with
      | none => ⟨awareness, ⟨[], [], []⟩, true⟩
      | some (clock, bytes) =>
        match Lib.Varint.readString bytes with
        | none => ⟨awareness, ⟨[], [], []⟩, true⟩
        | some (state, bytes) =>
          let applied := applyClient awareness change id clock (state = "null")
          applyClients count bytes applied.1 applied.2

/-- Clients with a clock each; a state is any text but `null`. -/
def clocked : AwarenessProtocol Awareness where
  newAwareness := []
  hasState awareness id := awareness.any fun client => client.1 = id ∧ client.2.hasState
  applyAwarenessUpdate awareness payload :=
    match Lib.Varint.readNat payload with
    | none => ⟨awareness, ⟨[], [], []⟩, true⟩
    | some (count, bytes) => applyClients count bytes awareness ⟨[], [], []⟩
  removeAwarenessStates awareness clients :=
    awareness.map fun client => if client.1 ∈ clients then (client.1, ⟨client.2.clock, false⟩)
      else client

theorem removes_clocked : Removes clocked := by
  intro awareness clients id
  simp only [clocked, List.any_map]
  induction awareness with
  | nil => rfl
  | cons client awareness ih =>
      rw [List.any_cons, ih, List.any_cons, Bool.and_or_distrib_right]
      congr 1
      by_cases hmem : client.1 ∈ clients
      · by_cases hid : client.1 = id
        · simp [hmem, ← hid]
        · simp [hmem, hid]
      · by_cases hid : client.1 = id
        · simp [hmem, ← hid]
        · simp [hmem, hid]

/-- A frame with the state of one client. -/
def publishes (id clock : UInt8) : Bytes := [1, id, clock, 2, 123, 125]

/-- A client publishes its cursor through one socket, and again through the
next one before the server sees the first one close. -/
def reconnects : List Event :=
  [.connect 0, .join 0, .create 0 true, .control (.resumeJoin 0), .enter 0,
    .frame 0 (publishes 7 1), .connect 1, .join 1, .control (.resumeJoin 1), .enter 1,
    .frame 1 (publishes 7 2)]

/-- The old socket's close takes the cursor the new one has published. -/
theorem reconnected_cursor_is_removed : ∃ s t : State Awareness,
    run (step clocked false) (.init []) reconnects = some s ∧
      step clocked false s (.close 0) = some t ∧
      clocked.hasState (s.awareness 0) 7 = true ∧ clocked.hasState (t.awareness 0) 7 = false ∧
      1 ∈ (s.doc.room 0).conns ∧ s.isOpen 1 = true ∧ PublishedSince s.history 0 1 7 ∧
      ¬ Meets (step clocked false) (SparesLive clocked false) (.init [])
        (reconnects ++ [.close 0]) := by
  have hrun : (run (step clocked false) (.init []) reconnects).map (fun s =>
      (s.doc.conn 0, s.history, [decide (s.hears 0), clocked.hasState (s.awareness 0) 7,
        decide (1 ∈ (s.doc.room 0).conns), s.isOpen 1])) =
      some (.inside 0, [⟨0, [7], [], []⟩, ⟨1, [], [7], []⟩], [true, true, true, true]) := by
    decide +kernel
  have hclose : (run (step clocked false) (.init []) (reconnects ++ [.close 0])).map (fun t =>
      clocked.hasState (t.awareness 0) 7) = some false := by decide +kernel
  obtain ⟨s, hs, hvalues⟩ := Option.map_eq_some_iff.mp hrun
  obtain ⟨t, ht, hgone⟩ := Option.map_eq_some_iff.mp hclose
  simp only [Prod.mk.injEq, List.cons.injEq, decide_eq_true_eq] at hvalues
  obtain ⟨hinside, hhistory, hhears, hhas, hmem, hopen, -⟩ := hvalues
  obtain ⟨s', hs', hstep⟩ := run_append_eq_some.mp ht
  obtain rfl : s' = s := Option.some.inj (hs'.symm.trans hs)
  obtain ⟨t', ht', hnil⟩ := run_cons_eq_some.mp hstep
  obtain rfl : t' = t := Option.some.inj hnil
  have hsince : PublishedSince s'.history 0 1 7 := by
    refine ⟨[], ⟨0, [7], [], []⟩, [⟨1, [], [7], []⟩], hhistory, ?_, ?_, ?_⟩
    · simp [Publication.publishes]
    · simp [Publication.publishes]
    · simp [Publication.publishes]
  refine ⟨s', t', hs, ht', hhas, hgone, hmem, hopen, hsince, fun hmeets => ?_⟩
  obtain ⟨hspares, -⟩ := ((meets_append hs).mp hmeets).2
  have honClose : onClose clocked false s' 0 = some t' := by
    rwa [step, if_pos hhears] at ht'
  exact hspares t' 0 7 honClose hinside hhas hgone 1 hmem (by decide) hopen hsince

/-- A frame that takes the state of one client back. -/
def withdraws (id clock : UInt8) : Bytes := [1, id, clock, 4, 110, 117, 108, 108]

/-- A client takes its cursor back from the one socket before it publishes
through the next one. -/
def handsOver : List Event :=
  [.connect 0, .join 0, .create 0 true, .control (.resumeJoin 0), .enter 0,
    .frame 0 (publishes 7 1), .frame 0 (withdraws 7 2), .connect 1, .join 1,
    .control (.resumeJoin 1), .enter 1, .frame 1 (publishes 7 3)]

theorem closes_spare_live_iff_handsOver :
    ∃ s : State Awareness, run (step clocked false) (.init []) handsOver = some s ∧
      PublishedSince s.history 0 1 7 ∧ clocked.hasState (s.awareness 0) 7 = true ∧
      Meets (step clocked false) (SparesLive clocked false) (.init [])
        (handsOver ++ [.close 0]) := by
  obtain ⟨t, ht⟩ : ∃ t, run (step clocked false) (.init []) (handsOver ++ [.close 0]) = some t :=
    Option.isSome_iff_exists.mp (by decide +kernel)
  have hrun : (run (step clocked false) (.init []) handsOver).map (fun s =>
      (s.doc.conn 0, (s.doc.room 0).conns, s.history, clocked.hasState (s.awareness 0) 7)) =
      some (.inside 0, {0, 1}, [⟨0, [7], [], []⟩, ⟨0, [], [], [7]⟩, ⟨1, [], [7], []⟩], true) := by
    decide +kernel
  obtain ⟨s, hs, hvalues⟩ := Option.map_eq_some_iff.mp hrun
  simp only [Prod.mk.injEq] at hvalues
  obtain ⟨hinside, hconns, hhistory, hhas⟩ := hvalues
  have hsince : PublishedSince s.history 0 1 7 := by
    refine ⟨[], ⟨0, [7], [], []⟩, _, hhistory, ?_, ?_, ?_⟩
    · simp [Publication.publishes]
    · simp [Publication.publishes]
    · simp [Publication.publishes]
  have hwithdrew : Withdrew s.history 0 7 := by
    refine ⟨[⟨0, [7], [], []⟩], ⟨0, [], [], [7]⟩, _, hhistory, ?_, ?_⟩
    · simp [Publication.withdraws]
    · simp [Publication.publishes]
  refine ⟨s, hs, hsince, hhas,
    (closes_spare_live_iff removes_clocked [] _ ht).mpr ((meets_append hs).mpr ⟨?_, ?_⟩)⟩
  · refine meets_of_forall fun e he u => ?_
    simp only [handsOver, List.mem_cons, List.not_mem_nil, or_false] at he
    rcases he with rfl | rfl | rfl | rfl | rfl | rfl | rfl | rfl | rfl | rfl | rfl | rfl <;> trivial
  · refine ⟨fun r hr c' hc' hne _ id hid => Or.inl ?_, fun _ _ => trivial⟩
    obtain rfl : r = 0 := by simpa [hinside] using hr.symm
    rw [hconns, Finset.mem_insert, Finset.mem_singleton] at hc'
    obtain rfl : c' = 1 := hc'.resolve_left hne
    obtain ⟨before, p, after, heq, hp, -⟩ := hid
    have hmem : p ∈ s.history := by simp [heq]
    obtain rfl : id = 7 := by
      simp only [hhistory, List.mem_cons, List.not_mem_nil, or_false] at hmem
      rcases hmem with rfl | rfl | rfl <;> simp_all [Publication.publishes]
    exact hwithdrew

end Filed

end CollabIDE.Collab.Presence
