import CollabIDE.Auth.Authorize
import CollabIDE.Collab.Rooms
import CollabIDE.Persistence.Buffer
import CollabIDE.Shared.Protocol
/-!
# The frames of one document

`handleConnection`, `handleMessage` and the observers of `attachRoomObservers`
for one document of one process, on the bytes of the frames.  A decoder is the
bytes it has not read, `none` where decoding throws.  What lib0, y-protocols and
Yjs do with bytes is a parameter; what `createRoom` loads comes with its event.
A frame is handled inside a `try`; the greeting, the close listener and the
timer of the awareness are not, and what throws there ends the process.
-/

namespace CollabIDE.Collab.Frames

open CollabIDE.Auth.Authorize CollabIDE.Projects.MemberTable CollabIDE.Shared.Protocol
open CollabIDE.Collab.Rooms CollabIDE.Persistence CollabIDE.Persistence.Buffer

abbrev Bytes := List UInt8

/-- What `readSyncMessage` leaves behind. -/
structure SyncRead (Y : Type) where
  ydoc : Y
  /-- The update events of the document. -/
  updates : List Bytes
  /-- What it wrote to the encoder. -/
  reply : Bytes
  throws : Bool

/-- What `applyAwarenessUpdate` leaves behind. -/
structure AwarenessRead (A : Type) where
  awareness : A
  /-- The clients its update event names, if it emits one. -/
  changed : Option (List Nat)
  /-- Decoding threw. -/
  throws : Bool

/-- lib0, Yjs and y-protocols.  An awareness `A` has the client ids each socket
brought with it. -/
structure Protocols (Y A : Type) where
  readVarUint : Bytes → Option (Nat × Bytes)
  readVarUint8Array : Bytes → Option (Bytes × Bytes)
  readSyncMessage : Y → Bytes → SyncRead Y
  writeSyncStep1 : Y → Bytes
  writeUpdate : Bytes → Bytes
  applyUpdate : Y → Bytes → Y × List Bytes
  newAwareness : A
  applyAwarenessUpdate : A → Bytes → Option ConnId → AwarenessRead A
  removeAwarenessStates : A → ConnId → A × Option (List Nat)
  /-- A tick of its timer, which drops the clients that were not renewed. -/
  removeOutdated : A → A × Option (List Nat)
  /-- The clients that have a state. -/
  getStates : A → List Nat
  /-- `none` where a state cannot be written: what `JSON.parse` reads,
  `JSON.stringify` may refuse. -/
  encodeAwarenessUpdate : A → List Nat → Option Bytes

def messageYjsSyncStep1 : Nat := 0
def messageYjsSyncStep2 : Nat := 1
def messageYjsUpdate : Nat := 2

/-- What is sent to a socket, and what is published on the bus. -/
inductive Message
  | sync (body : Bytes)
  | awareness (payload : Bytes)
  deriving DecidableEq

def Message.isSync : Message → Bool
  | .sync _ => true
  | .awareness _ => false

/-- The origin of an update. -/
inductive Origin
  | conn (c : ConnId)
  /-- `BUS_ORIGIN`. -/
  | bus
  | none
  deriving DecidableEq

inductive Phase
  | absent
  /-- `handshake` has not resolved; `collect` keeps what arrives. -/
  | handshaking
  /-- In `handleConnection`, before the membership is read. -/
  | reading
  /-- It has called `joinRoom`, or was turned away. -/
  | done
  deriving DecidableEq

structure Socket where
  phase : Phase
  canWrite : Bool
  /-- `readyState` is `OPEN`. -/
  isOpen : Bool
  /-- The close event has fired. -/
  closed : Bool
  /-- Frames that wait for the room. -/
  queued : List Bytes

def Socket.absent : Socket := ⟨.absent, false, false, false, []⟩

/-- A room's document and buffer. -/
structure Work (Y : Type) where
  ydoc : Y
  buffer : DocPersistence Bytes
  /-- The flush its eviction waits for. -/
  ticket : Nat

structure State (Y A : Type) where
  doc : Doc
  work : RoomId → Work Y
  awareness : RoomId → A
  socket : ConnId → Socket
  /-- What was sent to each socket. -/
  sent : ConnId → List Message
  published : List Message
  store : Store Bytes
  /-- An exception that nothing caught has ended the process. -/
  ended : Bool

variable {Y A : Type}

def State.init (ydoc : Y) (awareness : A) (store : Store Bytes) : State Y A :=
  ⟨Doc.empty, fun _ => ⟨ydoc, .fresh, 0⟩, fun _ => awareness, fun _ => .absent, fun _ => [], [],
    store, false⟩

def State.setSocket (s : State Y A) (c : ConnId) (socket : Socket) : State Y A :=
  { s with socket := Function.update s.socket c socket }

def State.setWork (s : State Y A) (r : RoomId) (work : Work Y) : State Y A :=
  { s with work := Function.update s.work r work }

def State.setAwareness (s : State Y A) (r : RoomId) (awareness : A) : State Y A :=
  { s with awareness := Function.update s.awareness r awareness }

/-- `socket.close` with a code. -/
def reject (s : State Y A) (c : ConnId) : State Y A :=
  s.setSocket c { s.socket c with isOpen := false }

def send (s : State Y A) (c : ConnId) (message : Message) : State Y A :=
  if (s.socket c).isOpen then
    { s with sent := Function.update s.sent c (s.sent c ++ [message]) }
  else s

def broadcast (s : State Y A) (r : RoomId) (message : Message) (origin : Origin) : State Y A :=
  { s with sent := fun peer =>
      if peer ∈ (s.doc.room r).conns ∧ origin ≠ .conn peer ∧ (s.socket peer).isOpen then
        s.sent peer ++ [message]
      else s.sent peer }

section Observers

variable (P : Protocols Y A) (docBusEnabled : Bool)

def publishDoc (s : State Y A) (frame : Message) (origin : Origin) : State Y A :=
  if origin ≠ .bus ∧ docBusEnabled then { s with published := s.published ++ [frame] } else s

/-- The observers of `ydoc.on('update')`: the buffer's, then the room's. -/
def onUpdate (s : State Y A) (r : RoomId) (origin : Origin) (update : Bytes) : State Y A :=
  let s := s.setWork r { s.work r with
    buffer := Buffer.onUpdate (s.work r).buffer ⟨{update}, update.length⟩ }
  publishDoc docBusEnabled (broadcast s r (.sync (P.writeUpdate update)) origin) (.sync update)
    origin

/-- A transaction on the document, with the update events it fires. -/
def transact (s : State Y A) (r : RoomId) (origin : Origin) (ydoc : Y) (updates : List Bytes) :
    State Y A :=
  updates.foldl (fun s update => onUpdate P docBusEnabled s r origin update)
    (s.setWork r { s.work r with ydoc })

/-- A change of the awareness, with the observer of its update event; nothing is
sent where encoding throws. -/
def onAwareness (s : State Y A) (r : RoomId) (origin : Origin) (awareness : A)
    (changed : Option (List Nat)) : State Y A :=
  let s := s.setAwareness r awareness
  match changed.bind (P.encodeAwarenessUpdate awareness) with
  | some payload =>
    publishDoc docBusEnabled (broadcast s r (.awareness payload) origin) (.awareness payload) origin
  | none => s

/-- The observer of the awareness throws. -/
def observerThrows (awareness : A) : Option (List Nat) → Bool
  | some changed => (P.encodeAwarenessUpdate awareness changed).isNone
  | none => false

/-- `applyAwarenessUpdate` throws, in its decoder or in the observer it calls. -/
def applyThrows (awareness : A) (payload : Bytes) (c : ConnId) : Bool :=
  let read := P.applyAwarenessUpdate awareness payload (some c)
  read.throws || observerThrows P read.awareness read.changed

def removeThrows (awareness : A) (c : ConnId) : Bool :=
  observerThrows P (P.removeAwarenessStates awareness c).1 (P.removeAwarenessStates awareness c).2

def timerThrows (awareness : A) : Bool :=
  observerThrows P (P.removeOutdated awareness).1 (P.removeOutdated awareness).2

/-- The greeting throws: there are states, and they cannot be written. -/
def greetThrows (awareness : A) : Bool :=
  !(P.getStates awareness).isEmpty &&
    (P.encodeAwarenessUpdate awareness (P.getStates awareness)).isNone

/-- Peeked on a throwaway decoder; `none` where that throws. -/
def isSyncStep1 (data : Bytes) : Option Bool :=
  match P.readVarUint data with
  | none => none
  | some (_, rest) => (P.readVarUint rest).map fun subtype => subtype.1 = messageYjsSyncStep1

/-- `readSyncMessage`, with its reply. -/
def handleSync (s : State Y A) (r : RoomId) (c : ConnId) (rest : Bytes) : State Y A :=
  let read := P.readSyncMessage (s.work r).ydoc rest
  let s := transact P docBusEnabled s r (.conn c) read.ydoc read.updates
  if read.throws then reject s c
  -- longer than the type byte
  else if read.reply.length > 0 then send s c (.sync read.reply)
  else s

def handleAwareness (s : State Y A) (r : RoomId) (c : ConnId) (payload : Bytes) : State Y A :=
  let read := P.applyAwarenessUpdate (s.awareness r) payload (some c)
  let changed := onAwareness P docBusEnabled s r (.conn c) read.awareness read.changed
  if applyThrows P (s.awareness r) payload c then reject changed c else changed

def handleMessage (s : State Y A) (r : RoomId) (c : ConnId) (data : Bytes) : State Y A :=
  match P.readVarUint data with
  | none => reject s c
  | some (messageType, rest) =>
    if messageType = MessageType.Sync then
      if (s.socket c).canWrite then handleSync P docBusEnabled s r c rest
      else
        match isSyncStep1 P data with
        | none => reject s c
        | some true => handleSync P docBusEnabled s r c rest
        -- dropped
        | some false => s
    else if messageType = MessageType.Awareness then
      match P.readVarUint8Array rest with
      | none => reject s c
      | some (payload, _) => handleAwareness P docBusEnabled s r c payload
    else reject s c

/-- A frame from another instance.  What throws is caught. -/
def applyRemoteFrame (s : State Y A) (r : RoomId) : Message → State Y A
  | .sync payload =>
    let applied := P.applyUpdate (s.work r).ydoc payload
    transact P docBusEnabled s r .bus applied.1 applied.2
  | .awareness payload =>
    let read := P.applyAwarenessUpdate (s.awareness r) payload none
    onAwareness P docBusEnabled s r .bus read.awareness read.changed

/-- Our state vector, then whatever presence the room already has. -/
def greet (s : State Y A) (r : RoomId) (c : ConnId) : State Y A :=
  let greeted := send s c (.sync (P.writeSyncStep1 (s.work r).ydoc))
  let states := P.getStates (s.awareness r)
  if states.isEmpty then greeted
  else
    match P.encodeAwarenessUpdate (s.awareness r) states with
    | some payload => send greeted c (.awareness payload)
    | none => { greeted with ended := true }

/-- `for (const message of queued) handleMessage(joined, conn, message)`. -/
def handleQueued (s : State Y A) (r : RoomId) (c : ConnId) : List Bytes → State Y A
  | [] => s
  | message :: queued => handleQueued (handleMessage P docBusEnabled s r c message) r c queued

/-- `handleConnection` from `attachRoomObservers` on.  Nothing catches what the
greeting throws. -/
def enter (s : State Y A) (r : RoomId) (c : ConnId) : State Y A :=
  let s := greet P s r c
  if s.ended then s
  else
    handleQueued P docBusEnabled (s.setSocket c { s.socket c with queued := [] }) r c
      (s.socket c).queued

end Observers

inductive Event (Y : Type)
  /-- `handleUpgrade` has completed. -/
  | upgrade (c : ConnId)
  /-- `handshake` resolves to a connection, or to `null`. -/
  | authenticated (c : ConnId) (known : Bool)
  /-- `assertProjectAccess` answers, with the role or with an error. -/
  | authorize (c : ConnId) (role : Option Role)
  /-- `handleConnection` resumes from `joinRoom`. -/
  | enter (c : ConnId)
  /-- A binary frame. -/
  | frame (c : ConnId) (data : Bytes)
  /-- A text frame came, or the socket is disconnected by the server. -/
  | reject (c : ConnId)
  | close (c : ConnId)
  /-- The timer of a room's awareness. -/
  | tick (r : RoomId)
  | remote (frame : Message)
  /-- `createRoom` returns a room with this document, or `null`. -/
  | create (r : RoomId) (loaded : Option Y)
  /-- A turn of the rooms that no event above takes. -/
  | control (e : Rooms.Event)
  | timerFires (r : RoomId)
  /-- `flushAllRooms`, for one room. -/
  | flush (r : RoomId)
  | write (r : RoomId) (e : WriteEvent Bytes)

/-- The turns of the rooms that `.control` may take; a write settles once the
chain it waits for has. -/
def mayTurn (s : State Y A) : Rooms.Event → Bool
  | .join _ | .attach _ | .leave _ | .create .. => false
  | .writeSettles r => (s.work r).ticket ≤ (s.work r).buffer.settled
  | _ => true

/-- What a turn of the rooms does to their buffers. -/
def controlWork (s : State Y A) : Rooms.Event → RoomId → Work Y
  | .resumeLeave c =>
    match evicted s.doc c with
    | some r => Function.update s.work r { s.work r with
        buffer := Buffer.flush (s.work r).buffer
        ticket := (Buffer.flush (s.work r).buffer).requested }
    | none => s.work
  | .finishLeave c =>
    match s.doc.conn c with
    | .evicting r =>
      Function.update s.work r { s.work r with buffer := detach (s.work r).buffer }
    | _ => s.work
  | _ => s.work

section Step

variable (P : Protocols Y A) (docBusEnabled : Bool) (docId : String)

/-- A socket whose message listener may still be called. -/
def Socket.hears (socket : Socket) : Prop := socket.phase ≠ .absent ∧ socket.closed = false

instance (socket : Socket) : Decidable socket.hears := by
  unfold Socket.hears
  infer_instance

/-- The listener of binary frames. -/
def onMessage (s : State Y A) (c : ConnId) (data : Bytes) : State Y A :=
  match s.doc.conn c with
  | .inside r => handleMessage P docBusEnabled s r c data
  | _ => s.setSocket c { s.socket c with queued := (s.socket c).queued ++ [data] }

def stepDoc (s : State Y A) (e : Rooms.Event) : Option (State Y A) :=
  (Rooms.step docBusEnabled s.doc e).map fun doc => { s with doc }

/-- The close event, and the listener of a socket inside a room. -/
def onClose (s : State Y A) (c : ConnId) : Option (State Y A) :=
  let closed := s.setSocket c { s.socket c with isOpen := false, closed := true }
  match s.doc.conn c with
  | .inside r =>
    let removed := P.removeAwarenessStates (s.awareness r) c
    let changed := onAwareness P docBusEnabled closed r .none removed.1 removed.2
    if removeThrows P (s.awareness r) c then some { changed with ended := true }
    else stepDoc docBusEnabled changed (.leave c)
  | _ => some closed

def onTick (s : State Y A) (r : RoomId) : State Y A :=
  let removed := P.removeOutdated (s.awareness r)
  let changed := onAwareness P docBusEnabled s r .none removed.1 removed.2
  { changed with ended := timerThrows P (s.awareness r) }

/-- A turn of the live process. -/
def turn (s : State Y A) : Event Y → Option (State Y A)
  | .upgrade c =>
    if (s.socket c).phase = .absent then
      some (s.setSocket c ⟨.handshaking, false, true, false, []⟩)
    else none
  | .authenticated c known =>
    if (s.socket c).phase = .handshaking then
      if known then some (s.setSocket c { s.socket c with phase := .reading })
      else some (s.setSocket c { s.socket c with phase := .done, isOpen := false })
    else none
  | .authorize c role =>
    if (s.socket c).phase = .reading then
      match role with
      | some role =>
        stepDoc docBusEnabled (s.setSocket c { s.socket c with
          phase := .done, canWrite := hasRole role .EDITOR }) (.join c)
      | none => some (s.setSocket c { s.socket c with phase := .done, isOpen := false })
    else none
  | .enter c =>
    match s.doc.conn c with
    | .joined r =>
      (stepDoc docBusEnabled s (.attach c)).map fun s => enter P docBusEnabled s r c
    | .refused => some (reject s c)
    | _ => none
  | .frame c data =>
    if (s.socket c).hears then some (onMessage P docBusEnabled s c data) else none
  | .reject c => if (s.socket c).phase = .absent then none else some (reject s c)
  | .close c => if (s.socket c).hears then onClose P docBusEnabled s c else none
  | .tick r =>
    if (s.doc.room r).observed ∧ (s.doc.room r).destroyed = false then
      some (onTick P docBusEnabled s r)
    else none
  | .remote frame => s.doc.handler.map fun r => applyRemoteFrame P docBusEnabled s r frame
  | .create r loaded =>
    let s := match loaded with
      | some ydoc => (s.setWork r ⟨ydoc, .fresh, 0⟩).setAwareness r P.newAwareness
      | none => s
    stepDoc docBusEnabled s (.create r loaded.isSome)
  | .control e =>
    if mayTurn s e then stepDoc docBusEnabled { s with work := controlWork s e } e else none
  | .timerFires r =>
    (timerFires (s.work r).buffer).map fun buffer => s.setWork r { s.work r with buffer }
  | .flush r =>
    if s.doc.creation r = .ready then
      some (s.setWork r { s.work r with buffer := Buffer.flush (s.work r).buffer })
    else none
  | .write r e =>
    (writeStep docId s.store (s.work r).buffer e).map fun p =>
      { s.setWork r { s.work r with buffer := p.2 } with store := p.1 }

/-- Once the process has ended nothing happens to what it held. -/
def step (s : State Y A) (e : Event Y) : Option (State Y A) :=
  if s.ended then some s else turn P docBusEnabled docId s e

end Step

end CollabIDE.Collab.Frames
