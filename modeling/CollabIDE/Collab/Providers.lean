import CollabIDE.Collab.FileContent
/-!
# The clients of one document

`CollabProvider` in the browsers, `handleConnection` and `handleMessage` on the
server, and the sockets between them, for one document of one process.  A
document is the set of its updates and a state vector the set of those its owner
has.  A socket keeps the order of its frames in each direction, and loses those
in flight when it closes.  Every connection may write; awareness frames, which
no document depends on, are left out.
-/

namespace CollabIDE.Collab.Providers

open CollabIDE.Lib.Machine CollabIDE.Collab.Rooms CollabIDE.Collab.Reopen
open CollabIDE.Collab.FileContent CollabIDE.Persistence.DocStore CollabIDE.Persistence.Buffer

/-! ## y-protocols -/

inductive SyncMessage
  | step1 (stateVector : Finset Update)
  | step2 (missing : Finset Update)
  | update (event : Finset Update)
  deriving DecidableEq

/-- What `readSyncMessage` applies to the document. -/
def SyncMessage.applied : SyncMessage → Finset Update
  | .step1 _ => ∅
  | .step2 missing => missing
  | .update event => event

/-- What `readSyncMessage` writes to the encoder, for a reply. -/
def SyncMessage.reply (ydoc : Finset Update) : SyncMessage → Option SyncMessage
  | .step1 stateVector => some (.step2 (ydoc \ stateVector))
  | .step2 _ | .update _ => none

/-! ## The state -/

/-- `readyState`. -/
inductive ReadyState
  | connecting
  | opened
  | closing
  | closed
  deriving DecidableEq

/-- A `CollabProvider`. -/
structure Provider where
  ydoc : Finset Update
  /-- The one it listens to. -/
  socket : Option ConnId

structure Socket (κ : Type) where
  owner : Option κ
  client : ReadyState
  /-- `connecting` until the upgrade has been handled. -/
  server : ReadyState
  /-- Sent by the client and in flight. -/
  up : List SyncMessage
  down : List SyncMessage
  /-- Received by the server while it has no room yet. -/
  queued : List SyncMessage

def Socket.unused (κ : Type) : Socket κ := ⟨none, .connecting, .connecting, [], [], []⟩

/-- The frames of the client that the server has not handled. -/
def Socket.unhandled {κ : Type} (socket : Socket κ) : List SyncMessage :=
  socket.queued ++ socket.up

structure State (κ : Type) where
  file : File
  provider : κ → Provider
  socket : ConnId → Socket κ
  /-- The edits that were ever made. -/
  made : Finset Nat

variable {κ : Type}

def State.init (κ : Type) (clock : Int) : State κ :=
  ⟨File.init (.empty clock) ∅, fun _ => ⟨∅, none⟩, fun _ => .unused κ, ∅⟩

/-- The document of a room. -/
def State.room (s : State κ) (r : RoomId) : Finset Update := (s.file.site.work r).ydoc

def State.conn (s : State κ) (k : ConnId) : Conn := s.file.site.doc.conn k

def State.setSocket (s : State κ) (k : ConnId) (socket : Socket κ) : State κ :=
  { s with socket := Function.update s.socket k socket }

/-- The client sends, if its end is open. -/
def Socket.sendUp (socket : Socket κ) (message : SyncMessage) : Socket κ :=
  if socket.client = .opened then { socket with up := socket.up ++ [message] } else socket

/-- The server sends, if its end is open. -/
def Socket.sendDown (socket : Socket κ) (message : SyncMessage) : Socket κ :=
  if socket.server = .opened then { socket with down := socket.down ++ [message] } else socket

/-- The client's end is gone, and what is in flight with it. -/
def Socket.drop (socket : Socket κ) : Socket κ :=
  { socket with client := .closed, up := [], down := [] }

section Sends

variable (socket : Socket κ) (message : SyncMessage)

@[simp] theorem Socket.sendUp_owner : (socket.sendUp message).owner = socket.owner := by
  unfold Socket.sendUp
  split <;> rfl

@[simp] theorem Socket.sendUp_client : (socket.sendUp message).client = socket.client := by
  unfold Socket.sendUp
  split <;> rfl

@[simp] theorem Socket.sendUp_server : (socket.sendUp message).server = socket.server := by
  unfold Socket.sendUp
  split <;> rfl

@[simp] theorem Socket.sendUp_down : (socket.sendUp message).down = socket.down := by
  unfold Socket.sendUp
  split <;> rfl

theorem Socket.mem_sendUp {m : SyncMessage} : m ∈ (socket.sendUp message).unhandled ↔
    m ∈ socket.unhandled ∨ socket.client = .opened ∧ m = message := by
  unfold Socket.sendUp
  split
  · next hopened => simp [Socket.unhandled, hopened, or_assoc]
  · next hopened => simp [hopened]

@[simp] theorem Socket.sendDown_owner : (socket.sendDown message).owner = socket.owner := by
  unfold Socket.sendDown
  split <;> rfl

@[simp] theorem Socket.sendDown_client : (socket.sendDown message).client = socket.client := by
  unfold Socket.sendDown
  split <;> rfl

@[simp] theorem Socket.sendDown_server : (socket.sendDown message).server = socket.server := by
  unfold Socket.sendDown
  split <;> rfl

@[simp] theorem Socket.sendDown_queued : (socket.sendDown message).queued = socket.queued := by
  unfold Socket.sendDown
  split <;> rfl

@[simp] theorem Socket.sendDown_unhandled :
    (socket.sendDown message).unhandled = socket.unhandled := by
  unfold Socket.sendDown
  split <;> rfl

theorem Socket.mem_sendDown {m : SyncMessage} : m ∈ (socket.sendDown message).down ↔
    m ∈ socket.down ∨ socket.server = .opened ∧ m = message := by
  unfold Socket.sendDown
  split
  · next hopened => simp [hopened]
  · next hopened => simp [hopened]

end Sends

/-! ## The server -/

/-- `send`: nothing where the socket is not open. -/
def send (s : State κ) (k : ConnId) (message : SyncMessage) : State κ :=
  s.setSocket k ((s.socket k).sendDown message)

def broadcast (s : State κ) (r : RoomId) (message : SyncMessage) (origin : ConnId) : State κ :=
  { s with socket := fun peer =>
      if peer ∈ (s.file.site.doc.room r).conns ∧ peer ≠ origin then
        (s.socket peer).sendDown message
      else s.socket peer }

section Server

variable (byteLength : Finset Update → Nat)

/-- `Y.applyUpdate` on a room's document.  The update event, for the buffer and
for the room's observer, carries what the document did not have. -/
def applyUpdate (s : State κ) (r : RoomId) (update : Finset Update) (origin : ConnId) : State κ :=
  let fresh := update \ s.room r
  if fresh = ∅ then s
  else
    let work := s.file.site.work r
    let site := s.file.site.setWork r { work with
      ydoc := work.ydoc ∪ fresh
      buffer := onUpdate work.buffer ⟨fresh, byteLength fresh⟩ }
    broadcast { s with file := { s.file with site } } r (.update fresh) origin

def handleMessage (s : State κ) (r : RoomId) (k : ConnId) (message : SyncMessage) : State κ :=
  let ydoc := s.room r
  let s := applyUpdate byteLength s r message.applied k
  match message.reply ydoc with
  | some reply => send s k reply
  | none => s

/-- `for (const message of queued) handleMessage(joined, conn, message)`, where a
message leaves the queue as it is handled. -/
def handleQueued (s : State κ) (r : RoomId) (k : ConnId) : List SyncMessage → State κ
  | [] => s
  | message :: queued =>
    handleQueued (handleMessage byteLength
      (s.setSocket k { s.socket k with queued }) r k message) r k queued

end Server

/-! ## The provider -/

section Provider

variable [DecidableEq κ]

def State.setProvider (s : State κ) (c : κ) (provider : Provider) : State κ :=
  { s with provider := Function.update s.provider c provider }

def Provider.send (s : State κ) (c : κ) (message : SyncMessage) : State κ :=
  match (s.provider c).socket with
  | none => s
  | some k => s.setSocket k ((s.socket k).sendUp message)

def Provider.handleOpen (s : State κ) (c : κ) : State κ :=
  Provider.send s c (.step1 (s.provider c).ydoc)

def Provider.handleDocUpdate (s : State κ) (c : κ) (update : Finset Update) : State κ :=
  Provider.send s c (.update update)

/-- What is applied here has the origin `REMOTE`, and is not sent back. -/
def Provider.handleMessage (s : State κ) (c : κ) (message : SyncMessage) : State κ :=
  let provider := s.provider c
  let s := s.setProvider c { provider with ydoc := provider.ydoc ∪ message.applied }
  match message.reply provider.ydoc with
  | some reply => Provider.send s c reply
  | none => s

def Provider.detachSocket (s : State κ) (c : κ) : State κ :=
  match (s.provider c).socket with
  | none => s
  | some k =>
    (s.setSocket k (s.socket k).drop).setProvider c { s.provider c with socket := none }

/-- `connect`, with `k` for the new socket. -/
def Provider.connect (s : State κ) (c : κ) (k : ConnId) : State κ :=
  (s.setSocket k { Socket.unused κ with owner := some c }).setProvider c
    { s.provider c with socket := some k }

end Provider

/-! ## Events -/

inductive Event (κ : Type)
  /-- A transaction on the client's document. -/
  | edit (c : κ) (n : Nat)
  /-- A retry: the old socket is detached, and `k` is the new one. -/
  | connect (c : κ) (k : ConnId)
  /-- `wss.handleUpgrade` has completed. -/
  | accept (k : ConnId)
  /-- The client's `open` event. -/
  | opens (k : ConnId)
  /-- The handshake and the membership are read, and `joinRoom` is called. -/
  | authorize (k : ConnId)
  /-- `handleConnection` is past `await joinRoom(conn)`. -/
  | enter (k : ConnId)
  | deliverUp (k : ConnId)
  | deliverDown (k : ConnId)
  /-- The server calls `close` on the socket. -/
  | reject (k : ConnId)
  /-- The client's `close` event. -/
  | clientClose (k : ConnId)
  /-- The server's `close` event. -/
  | serverClose (k : ConnId)
  /-- What happens to the rooms, their loads and their writes. -/
  | site (e : Reopen.Event)

/-- Connections edit a room, and begin and end their visits, through the other
events. -/
def isDriven : Reopen.Event → Bool
  | .edit .. => true
  | .control e => e.visits
  | _ => false

/-- The provider that listens to a socket. -/
def State.listener (s : State κ) (k : ConnId) : Option κ :=
  (s.socket k).owner.filter fun c => (s.provider c).socket = some k

/-- A turn of the rooms. -/
def controlFile (docBusEnabled : Bool) (docId : String) (s : State κ) (e : Rooms.Event) :
    Option (State κ) :=
  (FileContent.step docBusEnabled docId s.file (.control e)).map fun file => { s with file }

/-- `byteLength` is the size of an encoded update. -/
def step [DecidableEq κ] (docBusEnabled : Bool) (docId : String)
    (byteLength : Finset Update → Nat) (s : State κ) : Event κ → Option (State κ)
  | .edit c n =>
    if n ∈ s.made then none
    else
      let provider := s.provider c
      let s := { s.setProvider c { provider with ydoc := insert (.edit n) provider.ydoc } with
        made := insert n s.made }
      some (Provider.handleDocUpdate s c {.edit n})
  | .connect c k =>
    if (s.socket k).owner = none then some (Provider.connect (Provider.detachSocket s c) c k)
    else none
  | .accept k =>
    if (s.socket k).owner ≠ none ∧ (s.socket k).server = .connecting then
      some (s.setSocket k { s.socket k with server := .opened })
    else none
  | .opens k =>
    match s.listener k with
    | some c =>
      if (s.socket k).client = .connecting ∧ (s.socket k).server ≠ .connecting then
        some (Provider.handleOpen (s.setSocket k { s.socket k with client := .opened }) c)
      else none
    | none => none
  | .authorize k =>
    if (s.socket k).server ≠ .connecting then controlFile docBusEnabled docId s (.join k) else none
  | .enter k =>
    match s.conn k with
    | .joined r =>
      (controlFile docBusEnabled docId s (.attach k)).map fun s =>
        let s := send s k (.step1 (s.room r))
        handleQueued byteLength s r k (s.socket k).queued
    | _ => none
  | .deliverUp k =>
    match (s.socket k).up with
    | [] => none
    | message :: up =>
      if (s.socket k).server = .opened ∨ (s.socket k).server = .closing then
        match s.conn k with
        | .inside r =>
          some (handleMessage byteLength (s.setSocket k { s.socket k with up }) r k message)
        | _ => some (s.setSocket k
            { s.socket k with up, queued := (s.socket k).queued ++ [message] })
      else none
  | .deliverDown k =>
    match s.listener k, (s.socket k).down with
    | some c, message :: down =>
      if (s.socket k).client = .opened then
        some (Provider.handleMessage (s.setSocket k { s.socket k with down }) c message)
      else none
    | _, _ => none
  | .reject k =>
    if (s.socket k).server = .opened then
      some (s.setSocket k { s.socket k with server := .closing })
    else none
  | .clientClose k =>
    if (s.socket k).client ≠ .closed ∧ (s.socket k).owner ≠ none then
      some (s.setSocket k (s.socket k).drop)
    else none
  | .serverClose k =>
    if (s.socket k).server = .opened ∨ (s.socket k).server = .closing then
      let s := s.setSocket k { s.socket k with server := .closed, up := [], down := [] }
      match s.conn k with
      -- the listener is attached as the connection enters its room
      | .inside _ => controlFile docBusEnabled docId s (.leave k)
      | _ => some s
    else none
  -- the clock that stamps the rows is not set back
  | .site e =>
    if isDriven e ∨ setsBack e then none
    else (FileContent.step docBusEnabled docId s.file e).map fun file => { s with file }

end CollabIDE.Collab.Providers
