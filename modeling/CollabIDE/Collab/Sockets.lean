import CollabIDE.Auth.Authorize
import CollabIDE.Collab.Rooms
import CollabIDE.Projects.Members
/-!
# Sockets and membership changes

`handleConnection`, `handleMessage` and `disconnectProjectUser` for the
documents of one project on one process, beside the calls that change its
members.  A socket is authorized once, as it joins; the database read, the
join and every frame are turns of their own.  A call that has changed a member
lists the rooms in one turn and closes the user's sockets in a later one, when
all of these rooms have been created.  A `createRoom` that throws is an
unhandled rejection and ends the process, so none does here.
-/

namespace CollabIDE.Collab.Sockets

open CollabIDE.Lib.Machine CollabIDE.Http.Errors CollabIDE.Auth.Authorize
open CollabIDE.Projects CollabIDE.Projects.MemberTable CollabIDE.Collab.Rooms

/-- A binary frame as `handleMessage` decodes it. -/
inductive Frame
  | syncStep1 (stateVector : List UInt8)
  | syncStep2 (update : List UInt8)
  | update (update : List UInt8)
  | awareness (update : List UInt8)
  | unknown (messageType : Nat)
  /-- Decoding throws. -/
  | malformed
  deriving DecidableEq

/-- Not a step 1, which is a read request. -/
def Frame.isWrite : Frame → Bool
  | .syncStep2 _ | .update _ => true
  | _ => false

inductive Handshake
  /-- `assertProjectAccess` has not read the row yet. -/
  | reading
  /-- It has, and `handleConnection` has not resumed. -/
  | read (access : Except AppError ProjectAccess)
  /-- `joinRoom` was called, or the socket was turned away. -/
  | done

structure Socket where
  userId : String
  handshake : Handshake
  canWrite : Bool
  /-- The server has called `close` on it; frames still arrive. -/
  closing : Bool
  /-- The close event has fired; no frame arrives any more. -/
  closed : Bool
  /-- Frames that wait for `joinRoom`. -/
  queued : List Frame

/-- A connection: its document and its number there. -/
abbrev ConnRef := String × ConnId

/-- A frame `readSyncMessage` applied to a room's document. -/
structure Applied where
  conn : ConnRef
  userId : String
  frame : Frame
  deriving DecidableEq

structure Site where
  projectId : String
  /-- The documents of the project. -/
  files : List String
  membership : Members.State
  docs : String → Doc
  socket : ConnRef → Option Socket
  /-- What `allRooms` found for a call. -/
  listed : Nat → Option (List (String × RoomId))
  applied : List Applied

def Site.init (projectId : String) (files : List String) (users : List Members.User)
    (members : Table) : Site :=
  ⟨projectId, files, Members.start users members, fun _ => Doc.empty, fun _ => none,
    fun _ => none, []⟩

def Site.setSocket (s : Site) (ref : ConnRef) (socket : Socket) : Site :=
  { s with socket := Function.update s.socket ref (some socket) }

/-- `reject`: `socket.close` with a code. -/
def reject (socket : Socket) : Socket := { socket with closing := true }

/-- `handleMessage`, and the frame if it changed the document. -/
def handleMessage (ref : ConnRef) (socket : Socket) (frame : Frame) : Socket × List Applied :=
  match frame with
  | .syncStep1 _ | .awareness _ => (socket, [])
  | .syncStep2 _ | .update _ =>
    if socket.canWrite then (socket, [⟨ref, socket.userId, frame⟩]) else (socket, [])
  | .unknown _ | .malformed => (reject socket, [])

/-- `for (const message of queued) handleMessage(joined, conn, message)`. -/
def handleQueued (ref : ConnRef) (socket : Socket) : List Frame → Socket × List Applied
  | [] => (socket, [])
  | frame :: frames =>
    let first := handleMessage ref socket frame
    let rest := handleQueued ref first.1 frames
    (rest.1, first.2 ++ rest.2)

/-- `conns` of the listed rooms, for one user: the sockets a walk closes. -/
def walks (s : Site) (rooms : List (String × RoomId)) (userId : String) (ref : ConnRef)
    (socket : Socket) : Bool :=
  socket.userId = userId ∧ ∃ room ∈ rooms, room.1 = ref.1 ∧
    (s.docs room.1).creation room.2 = .ready ∧ ref.2 ∈ ((s.docs room.1).room room.2).conns

def closeWalked (s : Site) (rooms : List (String × RoomId)) (userId : String) : Site :=
  { s with socket := fun ref => (s.socket ref).map fun socket =>
      if walks s rooms userId ref socket then reject socket else socket }

inductive Event
  /-- A call of the members API, or a statement of one. -/
  | members (e : Members.Event)
  /-- `handleConnection`, with the frames that came before it. -/
  | connect (ref : ConnRef) (userId : String) (early : List Frame)
  /-- The query of `assertProjectAccess`. -/
  | readAccess (ref : ConnRef)
  /-- `handleConnection` resumes, and calls `joinRoom`. -/
  | authorize (ref : ConnRef)
  /-- `handleConnection` resumes with the room it joined, or with `null`. -/
  | enter (ref : ConnRef)
  /-- A turn of the rooms of one document. -/
  | rooms (docId : String) (e : Rooms.Event)
  | message (ref : ConnRef) (frame : Frame)
  | textMessage (ref : ConnRef)
  | close (ref : ConnRef)
  /-- `disconnectProjectUser` calls `allRooms`. -/
  | listRooms (call : Nat)
  /-- `disconnectProjectUser` past its await, and the call resolves. -/
  | walk (call : Nat)

/-- The turns of the rooms that no turn of a socket takes. -/
def ownTurn : Rooms.Event → Bool
  | .proceed _ | .create .. | .resumeJoin _ | .resumeLeave _ | .writeSettles _
  | .finishLeave _ => true
  | .join _ | .attach _ | .leave _ => false

def stepDoc (docBusEnabled : Bool) (s : Site) (docId : String) (e : Rooms.Event) : Option Site :=
  (Rooms.step docBusEnabled (s.docs docId) e).map fun d =>
    { s with docs := Function.update s.docs docId d }

/-- The rooms of the project in the map, pending ones too. -/
def allRooms (s : Site) : List (String × RoomId) :=
  s.files.filterMap fun docId => (s.docs docId).entry.map fun r => (docId, r)

/-- `createRoom` has returned. -/
def settled (s : Site) (room : String × RoomId) : Bool :=
  (s.docs room.1).creation room.2 = .ready ∨ (s.docs room.1).creation room.2 = .absent

def step (docBusEnabled : Bool) (s : Site) : Event → Option Site
  | .members e =>
    match e with
    | .statement call =>
      match s.membership.calls[call]? with
      | some (.disconnecting ..) => none
      | _ => (Members.step s.membership e).map fun membership => { s with membership }
    | _ => (Members.step s.membership e).map fun membership => { s with membership }
  | .connect ref userId early =>
    if s.socket ref = none ∧ ref.1 ∈ s.files then
      some (s.setSocket ref ⟨userId, .reading, false, false, false, early⟩)
    else none
  | .readAccess ref =>
    match s.socket ref with
    | some socket =>
      match socket.handshake with
      | .reading => some (s.setSocket ref { socket with
          handshake := .read
            (assertProjectAccess s.membership.members socket.userId s.projectId .VIEWER) })
      | _ => none
    | none => none
  | .authorize ref =>
    match s.socket ref with
    | some socket =>
      match socket.handshake with
      | .read (.ok access) =>
        stepDoc docBusEnabled (s.setSocket ref { socket with
          handshake := .done, canWrite := hasRole access.role .EDITOR }) ref.1 (.join ref.2)
      | .read (.error _) => some (s.setSocket ref (reject { socket with handshake := .done }))
      | _ => none
    | none => none
  | .enter ref =>
    match s.socket ref, (s.docs ref.1).conn ref.2 with
    | some socket, .joined _ =>
      let handled := handleQueued ref { socket with queued := [] } socket.queued
      stepDoc docBusEnabled { s.setSocket ref handled.1 with applied := s.applied ++ handled.2 }
        ref.1 (.attach ref.2)
    | some socket, .refused => some (s.setSocket ref (reject socket))
    | _, _ => none
  | .rooms docId e => if ownTurn e then stepDoc docBusEnabled s docId e else none
  | .message ref frame =>
    match s.socket ref with
    | some socket =>
      if socket.closed then none
      else
        match (s.docs ref.1).conn ref.2 with
        | .inside _ =>
          let handled := handleMessage ref socket frame
          some { s.setSocket ref handled.1 with applied := s.applied ++ handled.2 }
        | _ => some (s.setSocket ref { socket with queued := socket.queued ++ [frame] })
    | none => none
  | .textMessage ref =>
    match s.socket ref with
    | some socket => if socket.closed then none else some (s.setSocket ref (reject socket))
    | none => none
  | .close ref =>
    match s.socket ref with
    | some socket =>
      if socket.closed then none
      else
        match (s.docs ref.1).conn ref.2 with
        -- the listener is attached in the turn that enters the room
        | .inside _ =>
          stepDoc docBusEnabled (s.setSocket ref { socket with closed := true }) ref.1
            (.leave ref.2)
        | _ => some (s.setSocket ref { socket with closed := true })
    | none => none
  | .listRooms call =>
    match s.membership.calls[call]?, s.listed call with
    | some (.disconnecting ..), none =>
      some { s with listed := Function.update s.listed call (some (allRooms s)) }
    | _, _ => none
  | .walk call =>
    match s.membership.calls[call]?, s.listed call with
    | some (.disconnecting userId _), some rooms =>
      if rooms.all (settled s) then
        (Members.step s.membership (.statement call)).map fun membership =>
          { closeWalked s rooms userId with membership }
      else none
    | _, _ => none

end CollabIDE.Collab.Sockets
