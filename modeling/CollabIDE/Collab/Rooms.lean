import CollabIDE.Lib.Machine
import Mathlib.Data.Finset.Basic
import Mathlib.Logic.Function.Basic
/-!
# Rooms of one document

`joinRoom`, `leaveRoom`, `createRoom` and `attachRoomObservers` for one
document of one process, as the turns between their awaits.  The registry
stores the promise of a room, so a joiner can find it while the room is still
being created, and a joiner that resumes checks that the promise it awaited is
still the registered one.  Rooms are numbered by the calls of `createRoom`; the
number stands for the promise and for the room it resolves to.

What a room loads and writes is left to the modules built on this one.
-/

namespace CollabIDE.Collab.Rooms

open CollabIDE.Lib.Machine

abbrev RoomId := Nat

abbrev ConnId := Nat

/-- How far a call of `createRoom` has come. -/
inductive Creation
  | unborn
  /-- Waiting for the write of an earlier room, `pendingWrites.get(docId)`. -/
  | waiting (inFlight : RoomId)
  | building
  | ready
  /-- Resolved to `null`: there is no such file. -/
  | absent
  deriving DecidableEq

/-- The write an evicted room registers in `pendingWrites`. -/
inductive FinalWrite
  | none
  | pending
  | settled
  deriving DecidableEq

structure Room where
  conns : Finset ConnId
  observed : Bool
  /-- Its awareness and its Y.Doc are destroyed. -/
  destroyed : Bool

/-- A room as `createRoom` returns it. -/
def Room.fresh : Room := ⟨∅, false, false⟩

/-- Where a connection is between two turns. -/
inductive Conn
  | idle
  /-- In `joinRoom`, awaiting this promise. -/
  | awaiting (pending : RoomId)
  /-- `joinRoom` has returned this room. -/
  | joined (room : RoomId)
  /-- `attachRoomObservers` has run. -/
  | inside (room : RoomId)
  /-- In `leaveRoom`, awaiting this promise. -/
  | leaving (pending : RoomId)
  /-- In `leaveRoom`, awaiting the write of this room. -/
  | evicting (room : RoomId)
  | left
  /-- `joinRoom` has returned `null`. -/
  | refused
  deriving DecidableEq

/-- What one process holds for one document: its key in `rooms`, in
`pendingWrites` and among the bus handlers, the rooms created so far and the
connections. -/
structure Doc where
  entry : Option RoomId
  pendingWrite : Option RoomId
  handler : Option RoomId
  next : RoomId
  creation : RoomId → Creation
  finalWrite : RoomId → FinalWrite
  room : RoomId → Room
  conn : ConnId → Conn

def Doc.empty : Doc where
  entry := none
  pendingWrite := none
  handler := none
  next := 0
  creation _ := .unborn
  finalWrite _ := .none
  room _ := .fresh
  conn _ := .idle

def Doc.setConn (d : Doc) (c : ConnId) (conn : Conn) : Doc :=
  { d with conn := Function.update d.conn c conn }

def Doc.setCreation (d : Doc) (r : RoomId) (creation : Creation) : Doc :=
  { d with creation := Function.update d.creation r creation }

def Doc.setRoom (d : Doc) (r : RoomId) (room : Room) : Doc :=
  { d with room := Function.update d.room r room }

/-- `rooms.delete(docId)`, if the registered promise is this one. -/
def Doc.deleteEntry (d : Doc) (pending : RoomId) : Doc :=
  if d.entry = some pending then { d with entry := none } else d

/-- The first turn of `createRoom`, with `rooms.set`. -/
def createRoom (d : Doc) : Doc :=
  let creation := match d.pendingWrite with
    | some inFlight => .waiting inFlight
    | none => .building
  { d.setCreation d.next creation with entry := some d.next, next := d.next + 1 }

/-- `joinRoom` up to its await. -/
def joinRoom (d : Doc) (c : ConnId) : Doc :=
  match d.entry with
  | some pending => d.setConn c (.awaiting pending)
  | none => (createRoom d).setConn c (.awaiting d.next)

/-- `room.conns.add(conn)`. -/
def Room.add (room : Room) (c : ConnId) : Room := { room with conns := insert c room.conns }

/-- `room.conns.delete(conn)`. -/
def Room.delete (room : Room) (c : ConnId) : Room := { room with conns := room.conns.erase c }

/-- `joinRoom` after its await. -/
def resumeJoin (d : Doc) (c : ConnId) (pending : RoomId) : Option Doc :=
  match d.creation pending with
  | .absent => some ((d.deleteEntry pending).setConn c .refused)
  | .ready =>
    if d.entry ≠ some pending then some (joinRoom d c)
    else some ((d.setRoom pending ((d.room pending).add c)).setConn c (.joined pending))
  | _ => none

/-- `attachRoomObservers`; it subscribes only where the bus is enabled. -/
def attachRoomObservers (docBusEnabled : Bool) (d : Doc) (r : RoomId) : Doc :=
  if (d.room r).observed then d
  else
    let d := d.setRoom r { d.room r with observed := true }
    if docBusEnabled then { d with handler := some r } else d

/-- `leaveRoom` up to its first await. -/
def leaveRoom (d : Doc) (c : ConnId) : Doc :=
  match d.entry with
  | none => d.setConn c .left
  | some pending => d.setConn c (.leaving pending)

/-- The turn of `leaveRoom` that empties a room: out of the map, off the bus,
and its write registered. -/
def evict (d : Doc) (r : RoomId) : Doc :=
  { d.deleteEntry r with
    handler := none
    finalWrite := Function.update d.finalWrite r .pending
    pendingWrite := some r }

/-- The room this turn of a connection's `leaveRoom` evicts, if it is the last
one in it. -/
def evicted (d : Doc) (c : ConnId) : Option RoomId :=
  match d.conn c with
  | .leaving pending =>
    if d.creation pending = .ready ∧ ¬ ((d.room pending).delete c).conns.Nonempty then some pending
    else none
  | _ => none

/-- `leaveRoom` between its two awaits. -/
def resumeLeave (d : Doc) (c : ConnId) (pending : RoomId) : Option Doc :=
  match d.creation pending with
  | .absent => some (d.setConn c .left)
  | .ready =>
    let d := d.setRoom pending ((d.room pending).delete c)
    if (d.room pending).conns.Nonempty then some (d.setConn c .left)
    else some ((evict d pending).setConn c (.evicting pending))
  | _ => none

/-- The write settles, and drops its key in `pendingWrites`. -/
def settleWrite (d : Doc) (r : RoomId) : Doc :=
  { d with
    finalWrite := Function.update d.finalWrite r .settled
    pendingWrite := if d.pendingWrite = some r then none else d.pendingWrite }

/-- `leaveRoom` after its second await. -/
def finishLeave (d : Doc) (c : ConnId) (r : RoomId) : Doc :=
  (d.setRoom r { d.room r with destroyed := true }).setConn c .left

inductive Event
  | join (c : ConnId)
  /-- `createRoom` gets past `await inFlight`. -/
  | proceed (r : RoomId)
  /-- `createRoom` returns a room, or `null`. -/
  | create (r : RoomId) (found : Bool)
  | resumeJoin (c : ConnId)
  | attach (c : ConnId)
  | leave (c : ConnId)
  | resumeLeave (c : ConnId)
  | writeSettles (r : RoomId)
  | finishLeave (c : ConnId)
  deriving DecidableEq

/-- The turns that neither a socket nor `createRoom` takes. -/
def Event.isControl : Event → Bool
  | .join _ | .attach _ | .leave _ | .create .. => false
  | _ => true

def step (docBusEnabled : Bool) (d : Doc) : Event → Option Doc
  | .join c => if d.conn c = .idle then some (joinRoom d c) else none
  | .proceed r =>
    match d.creation r with
    | .waiting inFlight =>
      if d.finalWrite inFlight = .settled then some (d.setCreation r .building) else none
    | _ => none
  | .create r found =>
    if d.creation r = .building then
      some (d.setCreation r (if found then .ready else .absent))
    else none
  | .resumeJoin c =>
    match d.conn c with
    | .awaiting pending => resumeJoin d c pending
    | _ => none
  | .attach c =>
    match d.conn c with
    | .joined r => some ((attachRoomObservers docBusEnabled d r).setConn c (.inside r))
    | _ => none
  | .leave c =>
    match d.conn c with
    | .joined _ | .inside _ => some (leaveRoom d c)
    | _ => none
  | .resumeLeave c =>
    match d.conn c with
    | .leaving pending => resumeLeave d c pending
    | _ => none
  | .writeSettles r => if d.finalWrite r = .pending then some (settleWrite d r) else none
  | .finishLeave c =>
    match d.conn c with
    | .evicting r => if d.finalWrite r = .settled then some (finishLeave d c r) else none
    | _ => none

end CollabIDE.Collab.Rooms
