import CollabIDE.Collab.Frames
import CollabIDE.Collab.Registry
import CollabIDE.Collab.Viewers
import CollabIDE.Redis.Envelope
import Mathlib.Algebra.BigOperators.Group.Finset.Basic
/-!
# Fan-out

What the observers of `attachRoomObservers` send, for all documents of any
number of instances on one doc bus.  A room has as many pairs of observers as
were registered on its Y.Doc, and each of them is called for each event; the
frames they send carry the number of the update event that caused them.  The
buffers, which observe the same events and send nothing, are left out.
-/

namespace CollabIDE.Collab.FanOut

open CollabIDE.Lib.Machine CollabIDE.Auth.Authorize CollabIDE.Projects.MemberTable
open CollabIDE.Shared.Protocol CollabIDE.Redis.DocBus CollabIDE.Collab.Rooms
open CollabIDE.Collab.Registry (Process view)
open CollabIDE.Collab.Frames (Bytes Protocols Message Origin Socket isSyncStep1 applyThrows
  removeThrows observerThrows)

/-- A frame sent to a socket, with the update event whose observers sent it:
`none` for a reply, a greeting or presence. -/
structure Sent where
  cause : Option Nat
  message : Message
  deriving DecidableEq

structure Published where
  cause : Option Nat
  docId : String
  message : Bytes
  deriving DecidableEq

/-- An update event of a room's document. -/
structure Update where
  docId : String
  room : RoomId
  origin : Origin
  update : Bytes
  /-- The open connections of the room as it fires. -/
  audience : Finset ConnId

structure Node (Y A : Type) where
  process : Process
  /-- The pairs of observers registered on a room's document. -/
  observers : String → RoomId → Nat
  ydoc : String → RoomId → Y
  awareness : String → RoomId → A
  socket : String → ConnId → Socket
  sent : String → ConnId → List Sent
  published : List Published
  updates : List Update
  /-- An exception that nothing caught has ended the process. -/
  ended : Bool

variable {Y A : Type}

def Node.init (ydoc : Y) (awareness : A) : Node Y A :=
  ⟨.empty, fun _ _ => 0, fun _ _ => ydoc, fun _ _ => awareness, fun _ _ => .absent, fun _ _ => [],
    [], [], false⟩

/-- One entry of a map by document and by room or connection. -/
def set {κ β : Type} [DecidableEq κ] (f : String → κ → β) (docId : String) (k : κ) (b : β) :
    String → κ → β :=
  Function.update f docId (Function.update (f docId) k b)

def Node.room (n : Node Y A) (docId : String) (r : RoomId) : Room :=
  (n.process.docs docId).room r

def Node.setSocket (n : Node Y A) (docId : String) (c : ConnId) (socket : Socket) : Node Y A :=
  { n with socket := set n.socket docId c socket }

/-- `socket.close` with a code. -/
def reject (n : Node Y A) (docId : String) (c : ConnId) : Node Y A :=
  n.setSocket docId c { n.socket docId c with isOpen := false }

def send (n : Node Y A) (docId : String) (c : ConnId) (message : Message) : Node Y A :=
  if (n.socket docId c).isOpen then
    { n with sent := set n.sent docId c (n.sent docId c ++ [⟨none, message⟩]) }
  else n

def broadcast (n : Node Y A) (docId : String) (r : RoomId) (frame : Sent) (origin : Origin) :
    Node Y A :=
  { n with sent := fun doc peer =>
      if doc = docId ∧ peer ∈ (n.room docId r).conns ∧ origin ≠ .conn peer ∧
          (n.socket docId peer).isOpen then
        n.sent doc peer ++ [frame]
      else n.sent doc peer }

section Observers

variable (L : Lib0) (P : Protocols Y A) (INSTANCE_ID : String) (docBusEnabled : Bool)

def publishDoc (n : Node Y A) (docId : String) (cause : Option Nat) (frame : DocFrame) :
    Node Y A :=
  { n with published := n.published ++ [⟨cause, docId, encodeFrame L INSTANCE_ID frame⟩] }

/-- One observer of `ydoc.on('update')`. -/
def observeUpdate (docId : String) (r : RoomId) (origin : Origin) (update : Bytes) (cause : Nat)
    (n : Node Y A) : Node Y A :=
  let n := broadcast n docId r ⟨some cause, .sync (P.writeUpdate update)⟩ origin
  -- never re-publish what the bus just handed us
  if origin ≠ .bus ∧ docBusEnabled then
    publishDoc L INSTANCE_ID n docId (some cause) ⟨.Sync, update⟩
  else n

/-- One observer of `awareness.on('update')`; it sends nothing where encoding throws. -/
def observeAwareness (docId : String) (r : RoomId) (origin : Origin) (changed : List Nat)
    (n : Node Y A) : Node Y A :=
  match P.encodeAwarenessUpdate (n.awareness docId r) changed with
  | some payload =>
    let n := broadcast n docId r ⟨none, .awareness payload⟩ origin
    if origin ≠ .bus ∧ docBusEnabled then
      publishDoc L INSTANCE_ID n docId none ⟨.Awareness, payload⟩
    else n
  | none => n

/-- An update event calls every registered observer. -/
def onUpdate (docId : String) (r : RoomId) (origin : Origin) (update : Bytes) (cause : Nat)
    (n : Node Y A) : Node Y A :=
  (observeUpdate L P INSTANCE_ID docBusEnabled docId r origin update cause)^[n.observers docId r] n

/-- The log of the update events, with one more. -/
def logUpdate (n : Node Y A) (docId : String) (r : RoomId) (origin : Origin) (update : Bytes) :
    Node Y A :=
  let audience := (n.room docId r).conns.filter fun c => (n.socket docId c).isOpen
  { n with updates := n.updates ++ [⟨docId, r, origin, update, audience⟩] }

/-- A transaction on the document.  Yjs fires its update events, and each is logged. -/
def transact (n : Node Y A) (docId : String) (r : RoomId) (origin : Origin) (ydoc : Y)
    (updates : List Bytes) : Node Y A :=
  updates.foldl (fun n update =>
    onUpdate L P INSTANCE_ID docBusEnabled docId r origin update n.updates.length
      (logUpdate n docId r origin update))
    { n with ydoc := set n.ydoc docId r ydoc }

/-- A change of the awareness, with its update event. -/
def onAwareness (n : Node Y A) (docId : String) (r : RoomId) (origin : Origin) (awareness : A)
    (changed : Option (List Nat)) : Node Y A :=
  let n := { n with awareness := set n.awareness docId r awareness }
  match changed with
  | some changed =>
    (observeAwareness L P INSTANCE_ID docBusEnabled docId r origin changed)^[n.observers docId r] n
  | none => n

/-- `readSyncMessage`, with its reply. -/
def handleSync (n : Node Y A) (docId : String) (r : RoomId) (c : ConnId) (rest : Bytes) :
    Node Y A :=
  let read := P.readSyncMessage (n.ydoc docId r) rest
  let n := transact L P INSTANCE_ID docBusEnabled n docId r (.conn c) read.ydoc read.updates
  if read.throws then reject n docId c
  -- longer than the type byte
  else if read.reply.length > 0 then send n docId c (.sync read.reply)
  else n

def handleAwareness (n : Node Y A) (docId : String) (r : RoomId) (c : ConnId) (payload : Bytes) :
    Node Y A :=
  let read := P.applyAwarenessUpdate (n.awareness docId r) payload (some c)
  let applied :=
    onAwareness L P INSTANCE_ID docBusEnabled n docId r (.conn c) read.awareness read.changed
  if applyThrows P (n.awareness docId r) payload c then reject applied docId c else applied

def handleMessage (docId : String) (r : RoomId) (c : ConnId) (n : Node Y A) (data : Bytes) :
    Node Y A :=
  match P.readVarUint data with
  | none => reject n docId c
  | some (messageType, rest) =>
    if messageType = MessageType.Sync then
      if (n.socket docId c).canWrite then
        handleSync L P INSTANCE_ID docBusEnabled n docId r c rest
      else
        match isSyncStep1 P data with
        | none => reject n docId c
        | some true => handleSync L P INSTANCE_ID docBusEnabled n docId r c rest
        -- dropped
        | some false => n
    else if messageType = MessageType.Awareness then
      match P.readVarUint8Array rest with
      | none => reject n docId c
      | some (payload, _) => handleAwareness L P INSTANCE_ID docBusEnabled n docId r c payload
    else reject n docId c

/-- A frame from another instance.  What throws is caught. -/
def applyRemoteFrame (n : Node Y A) (docId : String) (r : RoomId) (frame : DocFrame) : Node Y A :=
  match frame.kind with
  | .Sync =>
    let applied := P.applyUpdate (n.ydoc docId r) frame.payload
    transact L P INSTANCE_ID docBusEnabled n docId r .bus applied.1 applied.2
  | .Awareness =>
    let read := P.applyAwarenessUpdate (n.awareness docId r) frame.payload none
    onAwareness L P INSTANCE_ID docBusEnabled n docId r .bus read.awareness read.changed

/-- Our state vector, then whatever presence the room already has. -/
def greet (n : Node Y A) (docId : String) (r : RoomId) (c : ConnId) : Node Y A :=
  let greeted := send n docId c (.sync (P.writeSyncStep1 (n.ydoc docId r)))
  let states := P.getStates (n.awareness docId r)
  if states.isEmpty then greeted
  else
    match P.encodeAwarenessUpdate (n.awareness docId r) states with
    | some payload => send greeted docId c (.awareness payload)
    | none => { greeted with ended := true }

/-- `handleConnection` from `attachRoomObservers` on.  Nothing catches what the
greeting throws. -/
def enter (n : Node Y A) (docId : String) (r : RoomId) (c : ConnId) : Node Y A :=
  let n := greet P n docId r c
  if n.ended then n
  else
    (n.socket docId c).queued.foldl (handleMessage L P INSTANCE_ID docBusEnabled docId r c)
      (n.setSocket docId c { n.socket docId c with queued := [] })

end Observers

inductive Event (Y A : Type)
  /-- `handleUpgrade` has completed. -/
  | upgrade (docId : String) (c : ConnId)
  /-- `handshake` resolves to a connection, or to `null`. -/
  | authenticated (docId : String) (c : ConnId) (known : Bool)
  /-- `assertProjectAccess` answers, with the role or with an error. -/
  | authorize (docId : String) (c : ConnId) (role : Option Role)
  /-- `handleConnection` resumes from `joinRoom`. -/
  | enter (docId : String) (c : ConnId)
  /-- A binary frame. -/
  | frame (docId : String) (c : ConnId) (data : Bytes)
  /-- A text frame came, or the socket is disconnected by the server. -/
  | reject (docId : String) (c : ConnId)
  | close (docId : String) (c : ConnId)
  /-- `createRoom` returns a room with this document, or `null`. -/
  | create (docId : String) (r : RoomId) (loaded : Option Y)
  /-- A turn of the rooms that no event above takes. -/
  | control (docId : String) (e : Rooms.Event)
  /-- The awareness drops the states of these clients, which were not renewed. -/
  | expire (docId : String) (r : RoomId) (awareness : A) (changed : List Nat)

section Step

variable (L : Lib0) (P : Protocols Y A) (INSTANCE_ID : String) (docBusEnabled : Bool)

def stepDoc (n : Node Y A) (docId : String) (e : Rooms.Event) : Option (Node Y A) :=
  (Registry.step docBusEnabled n.process (docId, e)).map fun process => { n with process }

/-- `attachRoomObservers`: whoever finds the flag unset registers a pair. -/
def attachRoomObservers (n : Node Y A) (docId : String) (r : RoomId) (c : ConnId) :
    Option (Node Y A) :=
  stepDoc docBusEnabled
    (if (n.room docId r).observed then n
    else { n with observers := set n.observers docId r (n.observers docId r + 1) })
    docId (.attach c)

/-- The listener of binary frames. -/
def onMessage (n : Node Y A) (docId : String) (c : ConnId) (data : Bytes) : Node Y A :=
  match (n.process.docs docId).conn c with
  | .inside r => handleMessage L P INSTANCE_ID docBusEnabled docId r c n data
  | _ =>
    n.setSocket docId c { n.socket docId c with queued := (n.socket docId c).queued ++ [data] }

/-- The close event, and the listener of a socket inside a room. -/
def onClose (n : Node Y A) (docId : String) (c : ConnId) : Option (Node Y A) :=
  let closed := n.setSocket docId c { n.socket docId c with isOpen := false, closed := true }
  match (n.process.docs docId).conn c with
  | .inside r =>
    let removed := P.removeAwarenessStates (n.awareness docId r) c
    let changed :=
      onAwareness L P INSTANCE_ID docBusEnabled closed docId r .none removed.1 removed.2
    if removeThrows P (n.awareness docId r) c then some { changed with ended := true }
    else stepDoc docBusEnabled changed docId (.leave c)
  | _ => some closed

/-- A turn of the live process. -/
def turn (n : Node Y A) : Event Y A → Option (Node Y A)
  | .upgrade docId c =>
    if (n.socket docId c).phase = .absent then
      some (n.setSocket docId c ⟨.handshaking, false, true, false, []⟩)
    else none
  | .authenticated docId c known =>
    if (n.socket docId c).phase = .handshaking then
      if known then some (n.setSocket docId c { n.socket docId c with phase := .reading })
      else some (n.setSocket docId c { n.socket docId c with phase := .done, isOpen := false })
    else none
  | .authorize docId c role =>
    if (n.socket docId c).phase = .reading then
      match role with
      | some role =>
        stepDoc docBusEnabled (n.setSocket docId c { n.socket docId c with
          phase := .done, canWrite := hasRole role .EDITOR }) docId (.join c)
      | none =>
        some (n.setSocket docId c { n.socket docId c with phase := .done, isOpen := false })
    else none
  | .enter docId c =>
    match (n.process.docs docId).conn c with
    | .joined r =>
      (attachRoomObservers docBusEnabled n docId r c).map fun n =>
        enter L P INSTANCE_ID docBusEnabled n docId r c
    | .refused => some (reject n docId c)
    | _ => none
  | .frame docId c data =>
    if (n.socket docId c).hears then some (onMessage L P INSTANCE_ID docBusEnabled n docId c data)
    else none
  | .reject docId c =>
    if (n.socket docId c).phase = .absent then none else some (reject n docId c)
  | .close docId c =>
    if (n.socket docId c).hears then onClose L P INSTANCE_ID docBusEnabled n docId c else none
  | .create docId r loaded =>
    -- what is loaded is applied before there is any observer
    let n := match loaded with
      | some ydoc => { n with
          ydoc := set n.ydoc docId r ydoc
          awareness := set n.awareness docId r P.newAwareness }
      | none => n
    stepDoc docBusEnabled n docId (.create r loaded.isSome)
  | .control docId e => if e.isControl then stepDoc docBusEnabled n docId e else none
  | .expire docId r awareness changed =>
    some { onAwareness L P INSTANCE_ID docBusEnabled n docId r .none awareness (some changed) with
      ended := observerThrows P awareness (some changed) }

def step (n : Node Y A) (e : Event Y A) : Option (Node Y A) :=
  if n.ended then some n else turn L P INSTANCE_ID docBusEnabled n e

/-- A message of the doc bus reaches this process; `none` if it is dropped. -/
def deliver (n : Node Y A) (docId : String) (message : Bytes) : Option (Node Y A) :=
  if n.ended then none
  else
    (onMessageBuffer L INSTANCE_ID n.process.bus (docChannel docId) message).map fun call =>
      applyRemoteFrame L P INSTANCE_ID docBusEnabled n docId call.1 call.2

end Step

/-! ## Instances -/

structure Fleet (ι Y A : Type) where
  node : ι → Node Y A
  /-- Who published a frame, and who applied it. -/
  applied : List (ι × ι)

inductive Fleet.Event (ι Y A : Type)
  | turn (i : ι) (e : FanOut.Event Y A)
  /-- The `k`-th frame that `publisher` published reaches `i`. -/
  | deliver (publisher : ι) (k : Nat) (i : ι)

variable {ι : Type} [DecidableEq ι]

def Fleet.init (ydoc : Y) (awareness : A) : Fleet ι Y A :=
  ⟨fun _ => .init ydoc awareness, []⟩

def Fleet.step (L : Lib0) (P : Protocols Y A) (INSTANCE_ID : ι → String) (s : Fleet ι Y A) :
    Fleet.Event ι Y A → Option (Fleet ι Y A)
  | .turn i e =>
    (FanOut.step L P (INSTANCE_ID i) true (s.node i) e).map fun n =>
      { s with node := Function.update s.node i n }
  | .deliver publisher k i =>
    (s.node publisher).published[k]?.map fun frame =>
      match FanOut.deliver L P (INSTANCE_ID i) true (s.node i) frame.docId frame.message with
      | some n => ⟨Function.update s.node i n, s.applied ++ [(publisher, i)]⟩
      | none => s

/-! ## What each update event sent -/

/-- What the observers of the `k`-th update event sent to a connection. -/
def Node.framesOf (n : Node Y A) (k : Nat) (docId : String) (c : ConnId) : List Message :=
  (n.sent docId c).filterMap fun frame =>
    if frame.cause = some k then some frame.message else none

/-- What they published, and where. -/
def Node.publishedOf (n : Node Y A) (k : Nat) : List (String × Bytes) :=
  n.published.filterMap fun frame =>
    if frame.cause = some k then some (frame.docId, frame.message) else none

def isSync (L : Lib0) (frame : Published) : Bool :=
  (decodeFrame L frame.message).any fun frame => frame.kind = .Sync

/-- The update events the bus did not cause. -/
def Node.ownUpdates (n : Node Y A) : List Update := n.updates.filter fun u => u.origin ≠ .bus

section FanOut

variable {L : Lib0} {P : Protocols Y A} {INSTANCE_ID : String} {docBusEnabled : Bool}
variable {n n' m : Node Y A} {docId : String} {r : RoomId} {c : ConnId}

/-- Every update event reached whom it must, once, and nobody else. -/
structure FannedOut (L : Lib0) (P : Protocols Y A) (INSTANCE_ID : String) (n : Node Y A) :
    Prop where
  frames : ∀ k u, n.updates[k]? = some u → ∀ docId c, n.framesOf k docId c =
    if docId = u.docId ∧ c ∈ u.audience ∧ u.origin ≠ .conn c then [.sync (P.writeUpdate u.update)]
    else []
  published : ∀ k u, n.updates[k]? = some u → n.publishedOf k =
    if u.origin = .bus then []
    else [(u.docId, encodeFrame L INSTANCE_ID ⟨.Sync, u.update⟩)]
  sent_caused : ∀ docId c, ∀ frame ∈ n.sent docId c, ∀ k, frame.cause = some k →
    k < n.updates.length
  published_caused : ∀ frame ∈ n.published, ∀ k, frame.cause = some k → k < n.updates.length
  stamped : ∀ frame ∈ n.published, ∃ content, frame.message = encodeFrame L INSTANCE_ID content
  count : (n.published.filter (isSync L)).length = n.ownUpdates.length

/-- Nothing but replies, greetings and presence was sent. -/
structure Quiet (L : Lib0) (INSTANCE_ID : String) (n n' : Node Y A) : Prop where
  process : n'.process = n.process
  observers : n'.observers = n.observers
  updates : n'.updates = n.updates
  sent : ∀ docId c, ∃ frames, n'.sent docId c = n.sent docId c ++ frames ∧
    ∀ frame ∈ frames, frame.cause = none
  published : ∃ frames, n'.published = n.published ++ frames ∧ ∀ frame ∈ frames,
    frame.cause = none ∧ ∃ payload, frame.message = encodeFrame L INSTANCE_ID ⟨.Awareness, payload⟩

theorem Quiet.refl (n : Node Y A) : Quiet L INSTANCE_ID n n where
  process := rfl
  observers := rfl
  updates := rfl
  sent _ _ := ⟨[], by simp⟩
  published := ⟨[], by simp⟩

theorem Quiet.trans (h : Quiet L INSTANCE_ID n m) (h' : Quiet L INSTANCE_ID m n') :
    Quiet L INSTANCE_ID n n' where
  process := h'.process.trans h.process
  observers := h'.observers.trans h.observers
  updates := h'.updates.trans h.updates
  sent docId c := by
    obtain ⟨frames, heq, hframes⟩ := h.sent docId c
    obtain ⟨more, heq', hmore⟩ := h'.sent docId c
    refine ⟨frames ++ more, by rw [heq', heq, List.append_assoc], fun frame hframe => ?_⟩
    exact (List.mem_append.mp hframe).elim (hframes frame) (hmore frame)
  published := by
    obtain ⟨frames, heq, hframes⟩ := h.published
    obtain ⟨more, heq', hmore⟩ := h'.published
    refine ⟨frames ++ more, by rw [heq', heq, List.append_assoc], fun frame hframe => ?_⟩
    exact (List.mem_append.mp hframe).elim (hframes frame) (hmore frame)

theorem Quiet.iterate {f : Node Y A → Node Y A} (hf : ∀ n, Quiet L INSTANCE_ID n (f n))
    (times : Nat) (n : Node Y A) : Quiet L INSTANCE_ID n (f^[times] n) := by
  induction times generalizing n with
  | zero => exact .refl n
  | succ times ih => exact (hf n).trans (ih (f n))

theorem Quiet.of_eq (hprocess : n'.process = n.process) (hobservers : n'.observers = n.observers)
    (hupdates : n'.updates = n.updates) (hsent : n'.sent = n.sent)
    (hpublished : n'.published = n.published) : Quiet L INSTANCE_ID n n' where
  process := hprocess
  observers := hobservers
  updates := hupdates
  sent _ _ := ⟨[], by simp [hsent]⟩
  published := ⟨[], by simp [hpublished]⟩

theorem quiet_setSocket (n : Node Y A) (docId : String) (c : ConnId) (socket : Socket) :
    Quiet L INSTANCE_ID n (n.setSocket docId c socket) := .of_eq rfl rfl rfl rfl rfl

theorem quiet_send (n : Node Y A) (docId : String) (c : ConnId) (message : Message) :
    Quiet L INSTANCE_ID n (send n docId c message) := by
  unfold send
  split
  · refine ⟨rfl, rfl, rfl, fun doc peer => ?_, [], by simp⟩
    by_cases hpeer : doc = docId ∧ peer = c
    · obtain ⟨rfl, rfl⟩ := hpeer
      exact ⟨[⟨none, message⟩], by simp [set]⟩
    · refine ⟨[], ?_, by simp⟩
      by_cases hdoc : doc = docId
      · have hne : peer ≠ c := fun heq => hpeer ⟨hdoc, heq⟩
        simp [set, hdoc, Function.update_of_ne hne]
      · simp [set, Function.update_of_ne hdoc]
  · exact .refl n

theorem quiet_observeAwareness (docId : String) (r : RoomId) (origin : Origin)
    (changed : List Nat) (n : Node Y A) :
    Quiet L INSTANCE_ID n
      (observeAwareness L P INSTANCE_ID docBusEnabled docId r origin changed n) := by
  have hbroadcast : ∀ payload, Quiet L INSTANCE_ID n
      (broadcast n docId r ⟨none, .awareness payload⟩ origin) := by
    intro payload
    refine ⟨rfl, rfl, rfl, fun doc peer => ?_, [], by simp [broadcast]⟩
    simp only [broadcast]
    split
    · exact ⟨[⟨none, .awareness payload⟩], rfl, by simp⟩
    · exact ⟨[], by simp⟩
  unfold observeAwareness
  cases P.encodeAwarenessUpdate (n.awareness docId r) changed with
  | none => exact .refl n
  | some payload =>
      by_cases hpublish : origin ≠ .bus ∧ docBusEnabled
      · simp only [if_pos hpublish]
        refine (hbroadcast payload).trans
          ⟨rfl, rfl, rfl, fun _ _ => ⟨[], by simp [publishDoc]⟩, _, rfl, ?_⟩
        simp only [List.mem_singleton, forall_eq, true_and]
        exact ⟨payload, rfl⟩
      · simp only [if_neg hpublish]
        exact hbroadcast payload

theorem quiet_onAwareness (n : Node Y A) (docId : String) (r : RoomId) (origin : Origin)
    (awareness : A) (changed : Option (List Nat)) :
    Quiet L INSTANCE_ID n
      (onAwareness L P INSTANCE_ID docBusEnabled n docId r origin awareness changed) := by
  have hset : Quiet L INSTANCE_ID n
      { n with awareness := set n.awareness docId r awareness } := .of_eq rfl rfl rfl rfl rfl
  unfold onAwareness
  cases changed with
  | none => exact hset
  | some changed =>
      exact hset.trans (.iterate (quiet_observeAwareness docId r origin changed) _ _)

/-! ## What is kept -/

theorem framesOf_append {frames : List Sent} {k : Nat}
    (h : n'.sent docId c = n.sent docId c ++ frames) :
    n'.framesOf k docId c = n.framesOf k docId c ++ frames.filterMap fun frame =>
      if frame.cause = some k then some frame.message else none := by
  rw [Node.framesOf, h, List.filterMap_append, Node.framesOf]

theorem publishedOf_append {frames : List Published} {k : Nat}
    (h : n'.published = n.published ++ frames) :
    n'.publishedOf k = n.publishedOf k ++ frames.filterMap fun frame =>
      if frame.cause = some k then some (frame.docId, frame.message) else none := by
  rw [Node.publishedOf, h, List.filterMap_append, Node.publishedOf]

section Causes

variable {α β : Type} {cause : α → Option Nat} {f : α → β} {xs more : List α} {k n m : Nat}

theorem filterMap_caused_eq_nil (h : ∀ x ∈ xs, cause x ≠ some k) :
    (xs.filterMap fun x => if cause x = some k then some (f x) else none) = [] :=
  List.filterMap_eq_nil_iff.mpr fun x hx => if_neg (h x hx)

theorem caused_lt_append (hnm : n ≤ m) (hxs : ∀ x ∈ xs, ∀ k, cause x = some k → k < n)
    (hmore : ∀ x ∈ more, ∀ k, cause x = some k → k < m) :
    ∀ x ∈ xs ++ more, ∀ k, cause x = some k → k < m := by
  intro x hx k hk
  rcases List.mem_append.mp hx with hx | hx
  · exact Nat.lt_of_lt_of_le (hxs x hx k hk) hnm
  · exact hmore x hx k hk

end Causes

theorem FannedOut.framesOf_fresh (h : FannedOut L P INSTANCE_ID n) (docId : String) (c : ConnId) :
    n.framesOf n.updates.length docId c = [] :=
  filterMap_caused_eq_nil fun frame hframe hcause =>
    Nat.lt_irrefl _ (h.sent_caused docId c frame hframe _ hcause)

theorem FannedOut.publishedOf_fresh (h : FannedOut L P INSTANCE_ID n) :
    n.publishedOf n.updates.length = [] :=
  filterMap_caused_eq_nil fun frame hframe hcause =>
    Nat.lt_irrefl _ (h.published_caused frame hframe _ hcause)

theorem isSync_encodeFrame (hL : L.Lawful) (cause : Option Nat) (docId : String)
    (frame : DocFrame) :
    isSync L ⟨cause, docId, encodeFrame L INSTANCE_ID frame⟩ = decide (frame.kind = .Sync) := by
  rw [isSync, decodeFrame_encodeFrame hL]
  rfl

theorem fannedOut_quiet (hL : L.Lawful) (h : FannedOut L P INSTANCE_ID n)
    (hquiet : Quiet L INSTANCE_ID n n') : FannedOut L P INSTANCE_ID n' := by
  obtain ⟨more, hpublished, hmore⟩ := hquiet.published
  have hsilent : more.filter (isSync L) = [] := by
    refine List.filter_eq_nil_iff.mpr fun frame hframe => ?_
    obtain ⟨-, payload, hpayload⟩ := hmore frame hframe
    obtain ⟨cause, docId, message⟩ := frame
    obtain rfl : message = _ := hpayload
    rw [isSync_encodeFrame hL]
    exact of_decide_eq_false rfl
  have huncaused : ∀ frame ∈ more, ∀ k, frame.cause ≠ some k := fun frame hframe k => by
    rw [(hmore frame hframe).1]
    exact nofun
  refine ⟨fun k u hu docId c => ?_, fun k u hu => ?_, fun docId c => ?_, ?_, ?_, ?_⟩
  · obtain ⟨frames, hsent, hframes⟩ := hquiet.sent docId c
    rw [hquiet.updates] at hu
    rw [framesOf_append hsent, h.frames k u hu, filterMap_caused_eq_nil, List.append_nil]
    exact fun frame hframe => by rw [hframes frame hframe]; exact nofun
  · rw [hquiet.updates] at hu
    rw [publishedOf_append hpublished, h.published k u hu, filterMap_caused_eq_nil,
      List.append_nil]
    exact fun frame hframe => huncaused frame hframe k
  · obtain ⟨frames, hsent, hframes⟩ := hquiet.sent docId c
    rw [hsent, hquiet.updates]
    refine caused_lt_append (Nat.le_refl _) (h.sent_caused docId c) fun frame hframe k hk => ?_
    rw [hframes frame hframe] at hk
    cases hk
  · rw [hpublished, hquiet.updates]
    exact caused_lt_append (Nat.le_refl _) h.published_caused fun frame hframe k hk =>
      absurd hk (huncaused frame hframe k)
  · rw [hpublished, List.forall_mem_append]
    refine ⟨h.stamped, fun frame hframe => ?_⟩
    obtain ⟨-, payload, hpayload⟩ := hmore frame hframe
    exact ⟨⟨.Awareness, payload⟩, hpayload⟩
  · rw [hpublished, List.filter_append, hsilent, List.append_nil, h.count, Node.ownUpdates,
      Node.ownUpdates, hquiet.updates]

/-- One update event, and what one pair of observers does with it. -/
structure Fires (L : Lib0) (P : Protocols Y A) (INSTANCE_ID : String) (n n' : Node Y A)
    (u : Update) : Prop where
  process : n'.process = n.process
  observers : n'.observers = n.observers
  updates : n'.updates = n.updates ++ [u]
  sent : ∀ docId c, n'.sent docId c = n.sent docId c ++
    if docId = u.docId ∧ c ∈ u.audience ∧ u.origin ≠ .conn c then
      [⟨some n.updates.length, .sync (P.writeUpdate u.update)⟩]
    else []
  published : n'.published = n.published ++
    if u.origin = .bus then []
    else [⟨some n.updates.length, u.docId, encodeFrame L INSTANCE_ID ⟨.Sync, u.update⟩⟩]

/-- With one pair of observers on its room an update event fires once. -/
theorem fires_onUpdate (hone : n.observers docId r = 1) (origin : Origin) (update : Bytes) :
    ∃ u, Fires L P INSTANCE_ID n (onUpdate L P INSTANCE_ID true docId r origin update
      n.updates.length (logUpdate n docId r origin update)) u := by
  refine ⟨⟨docId, r, origin, update, (n.room docId r).conns.filter fun c =>
    (n.socket docId c).isOpen⟩, ?_⟩
  have hone' : (logUpdate n docId r origin update).observers docId r = 1 := hone
  rw [onUpdate, hone', Function.iterate_one, observeUpdate, broadcast]
  have hsent : ∀ doc peer, (if doc = docId ∧ peer ∈ (n.room docId r).conns ∧ origin ≠ .conn peer ∧
        (n.socket docId peer).isOpen then
      n.sent doc peer ++ [⟨some n.updates.length, .sync (P.writeUpdate update)⟩]
      else n.sent doc peer) = n.sent doc peer ++
      if doc = docId ∧ peer ∈ ((n.room docId r).conns.filter fun c => (n.socket docId c).isOpen) ∧
          origin ≠ .conn peer then
        [⟨some n.updates.length, .sync (P.writeUpdate update)⟩]
      else [] := by
    intro doc peer
    simp only [Finset.mem_filter]
    split <;> rename_i hpeer
    · rw [if_pos ⟨hpeer.1, ⟨hpeer.2.1, hpeer.2.2.2⟩, hpeer.2.2.1⟩]
    · rw [if_neg fun hall => hpeer ⟨hall.1, hall.2.1.1, hall.2.2, hall.2.1.2⟩, List.append_nil]
  by_cases hbus : origin = .bus
  · rw [if_neg fun hpublish => hpublish.1 hbus]
    exact ⟨rfl, rfl, rfl, hsent, by simp [hbus, logUpdate]⟩
  · rw [if_pos ⟨hbus, rfl⟩]
    exact ⟨rfl, rfl, rfl, hsent, by simp [hbus, publishDoc, logUpdate]⟩

theorem getElem?_concat_cases {updates : List Update} {u v : Update} {k : Nat}
    (h : (updates ++ [u])[k]? = some v) :
    updates[k]? = some v ∧ k < updates.length ∨ k = updates.length ∧ v = u := by
  rcases Nat.lt_trichotomy k updates.length with hlt | heq | hgt
  · rw [List.getElem?_append_left hlt] at h
    exact Or.inl ⟨h, hlt⟩
  · rw [heq, List.getElem?_concat_length] at h
    exact Or.inr ⟨heq, (Option.some.inj h).symm⟩
  · rw [List.getElem?_eq_none (by simp; omega)] at h
    cases h

theorem fannedOut_fires (hL : L.Lawful) (h : FannedOut L P INSTANCE_ID n) {u : Update}
    (hfires : Fires L P INSTANCE_ID n n' u) : FannedOut L P INSTANCE_ID n' := by
  have hlater : n.updates.length ≤ n'.updates.length := by simp [hfires.updates]
  have hnow : n.updates.length < n'.updates.length := by simp [hfires.updates]
  refine ⟨fun k v hv doc peer => ?_, fun k v hv => ?_, fun doc peer => ?_, ?_, ?_, ?_⟩
  · rw [hfires.updates] at hv
    rw [framesOf_append (hfires.sent doc peer)]
    rcases getElem?_concat_cases hv with ⟨hold, hlt⟩ | ⟨rfl, rfl⟩
    · rw [h.frames k v hold, filterMap_caused_eq_nil, List.append_nil]
      intro frame hframe
      split at hframe
      · obtain rfl := List.mem_singleton.mp hframe
        simpa using Nat.ne_of_gt hlt
      · cases hframe
    · rw [h.framesOf_fresh]
      split <;> simp
  · rw [hfires.updates] at hv
    rw [publishedOf_append hfires.published]
    rcases getElem?_concat_cases hv with ⟨hold, hlt⟩ | ⟨rfl, rfl⟩
    · rw [h.published k v hold, filterMap_caused_eq_nil, List.append_nil]
      intro frame hframe
      split at hframe
      · cases hframe
      · obtain rfl := List.mem_singleton.mp hframe
        simpa using Nat.ne_of_gt hlt
    · rw [h.publishedOf_fresh]
      split <;> simp
  · rw [hfires.sent]
    refine caused_lt_append hlater (h.sent_caused doc peer) fun frame hframe k hk => ?_
    split at hframe
    · obtain rfl := List.mem_singleton.mp hframe
      obtain rfl := Option.some.inj hk
      exact hnow
    · cases hframe
  · rw [hfires.published]
    refine caused_lt_append hlater h.published_caused fun frame hframe k hk => ?_
    split at hframe
    · cases hframe
    · obtain rfl := List.mem_singleton.mp hframe
      obtain rfl := Option.some.inj hk
      exact hnow
  · rw [hfires.published, List.forall_mem_append]
    refine ⟨h.stamped, fun frame hframe => ?_⟩
    split at hframe
    · cases hframe
    · obtain rfl := List.mem_singleton.mp hframe
      exact ⟨_, rfl⟩
  · rw [hfires.published, List.filter_append, List.length_append, h.count, Node.ownUpdates,
      Node.ownUpdates, hfires.updates, List.filter_append, List.length_append]
    by_cases hbus : u.origin = .bus
    · simp [hbus]
    · simp [hbus, isSync_encodeFrame hL]

/-! ## What a message does to a room -/

/-- Update events of one room, and what sends nothing for them. -/
inductive Effects (L : Lib0) (P : Protocols Y A) (INSTANCE_ID : String) (docBusEnabled : Bool)
    (docId : String) (r : RoomId) : Node Y A → Node Y A → Prop
  | quiet {n n' : Node Y A} (h : Quiet L INSTANCE_ID n n') :
      Effects L P INSTANCE_ID docBusEnabled docId r n n'
  | update (n : Node Y A) (origin : Origin) (update : Bytes) :
      Effects L P INSTANCE_ID docBusEnabled docId r n
        (onUpdate L P INSTANCE_ID docBusEnabled docId r origin update n.updates.length
          (logUpdate n docId r origin update))
  | trans {n m n' : Node Y A} (h : Effects L P INSTANCE_ID docBusEnabled docId r n m)
      (h' : Effects L P INSTANCE_ID docBusEnabled docId r m n') :
      Effects L P INSTANCE_ID docBusEnabled docId r n n'

theorem Effects.foldl {β : Type} {f : Node Y A → β → Node Y A}
    (hf : ∀ n b, Effects L P INSTANCE_ID docBusEnabled docId r n (f n b)) (bs : List β)
    (n : Node Y A) : Effects L P INSTANCE_ID docBusEnabled docId r n (bs.foldl f n) := by
  induction bs generalizing n with
  | nil => exact .quiet (.refl n)
  | cons b bs ih => exact (hf n b).trans (ih (f n b))

theorem effects_transact (n : Node Y A) (docId : String) (r : RoomId) (origin : Origin) (ydoc : Y)
    (updates : List Bytes) :
    Effects L P INSTANCE_ID docBusEnabled docId r n
      (transact L P INSTANCE_ID docBusEnabled n docId r origin ydoc updates) := by
  have hset : Quiet L INSTANCE_ID n { n with ydoc := set n.ydoc docId r ydoc } :=
    .of_eq rfl rfl rfl rfl rfl
  exact (Effects.quiet hset).trans (.foldl (fun n update => .update n origin update) updates _)

theorem effects_handleSync (n : Node Y A) (docId : String) (r : RoomId) (c : ConnId)
    (rest : Bytes) :
    Effects L P INSTANCE_ID docBusEnabled docId r n
      (handleSync L P INSTANCE_ID docBusEnabled n docId r c rest) := by
  simp only [handleSync]
  split
  · exact .trans (effects_transact _ _ _ _ _ _) (.quiet (quiet_setSocket _ _ _ _))
  · split
    · exact .trans (effects_transact _ _ _ _ _ _) (.quiet (quiet_send _ _ _ _))
    · exact effects_transact _ _ _ _ _ _

theorem effects_handleMessage (docId : String) (r : RoomId) (c : ConnId) (n : Node Y A)
    (data : Bytes) :
    Effects L P INSTANCE_ID docBusEnabled docId r n
      (handleMessage L P INSTANCE_ID docBusEnabled docId r c n data) := by
  have hreject : Effects L P INSTANCE_ID docBusEnabled docId r n (reject n docId c) :=
    .quiet (quiet_setSocket _ _ _ _)
  have haware : ∀ payload, Effects L P INSTANCE_ID docBusEnabled docId r n
      (handleAwareness L P INSTANCE_ID docBusEnabled n docId r c payload) := by
    intro payload
    simp only [handleAwareness]
    refine .quiet ?_
    split
    · exact .trans (quiet_onAwareness _ _ _ _ _ _) (quiet_setSocket _ _ _ _)
    · exact quiet_onAwareness _ _ _ _ _ _
  unfold handleMessage
  split
  · exact hreject
  · split
    · split
      · exact effects_handleSync _ _ _ _ _
      · split
        · exact hreject
        · exact effects_handleSync _ _ _ _ _
        · exact .quiet (.refl n)
    · split
      · split
        · exact hreject
        · exact haware _
      · exact hreject

theorem effects_applyRemoteFrame (n : Node Y A) (docId : String) (r : RoomId) (frame : DocFrame) :
    Effects L P INSTANCE_ID docBusEnabled docId r n
      (applyRemoteFrame L P INSTANCE_ID docBusEnabled n docId r frame) := by
  unfold applyRemoteFrame
  cases frame.kind with
  | Sync => exact effects_transact _ _ _ _ _ _
  | Awareness => exact .quiet (quiet_onAwareness _ _ _ _ _ _)

theorem effects_enter (n : Node Y A) (docId : String) (r : RoomId) (c : ConnId) :
    Effects L P INSTANCE_ID docBusEnabled docId r n
      (enter L P INSTANCE_ID docBusEnabled n docId r c) := by
  have hgreet : Quiet L INSTANCE_ID n (greet P n docId r c) := by
    simp only [greet]
    split
    · exact quiet_send _ _ _ _
    · split
      · exact .trans (quiet_send _ _ _ _) (quiet_send _ _ _ _)
      · exact .trans (quiet_send _ _ _ _) (.of_eq rfl rfl rfl rfl rfl)
  unfold enter
  dsimp only
  split
  · exact .quiet hgreet
  · exact (Effects.quiet (hgreet.trans (quiet_setSocket _ _ _ _))).trans
      (.foldl (effects_handleMessage docId r c) _ _)

/-- With one pair of observers on the room, every event of a message is fanned out. -/
theorem fannedOut_effects (hL : L.Lawful) (hone : n.observers docId r = 1)
    (heffects : Effects L P INSTANCE_ID true docId r n n') :
    n'.process = n.process ∧ n'.observers = n.observers ∧
      (FannedOut L P INSTANCE_ID n → FannedOut L P INSTANCE_ID n') := by
  induction heffects with
  | quiet h => exact ⟨h.process, h.observers, fun hn => fannedOut_quiet hL hn h⟩
  | update n origin update =>
      obtain ⟨u, hfires⟩ : ∃ u, Fires L P INSTANCE_ID n
          (onUpdate L P INSTANCE_ID true docId r origin update n.updates.length
            (logUpdate n docId r origin update)) u :=
        fires_onUpdate hone origin update
      exact ⟨hfires.process, hfires.observers, fun hn => fannedOut_fires hL hn hfires⟩
  | trans _ _ ih ih' =>
      obtain ⟨hprocess, hobservers, hfanned⟩ := ih hone
      obtain ⟨hprocess', hobservers', hfanned'⟩ := ih' (by rw [hobservers, hone])
      exact ⟨hprocess'.trans hprocess, hobservers'.trans hobservers,
        fun hn => hfanned' (hfanned hn)⟩

/-! ## The invariant of a process -/

structure Inv (L : Lib0) (P : Protocols Y A) (INSTANCE_ID : String) (n : Node Y A) : Prop where
  registry : Registry.AllInv true n.process
  observers : ∀ docId r, n.observers docId r = if (n.room docId r).observed then 1 else 0
  inside : ∀ docId, AllObserved (n.process.docs docId)
  fannedOut : FannedOut L P INSTANCE_ID n

theorem inv_init (ydoc : Y) (awareness : A) : Inv L P INSTANCE_ID (.init ydoc awareness) where
  registry := ⟨connected_closed, fun _ => inv_empty true⟩
  observers _ _ := rfl
  inside _ _ _ h := nomatch h
  fannedOut :=
    { frames := fun _ _ h => nomatch h
      published := fun _ _ h => nomatch h
      sent_caused := fun _ _ _ h => nomatch h
      published_caused := fun _ h => nomatch h
      stamped := fun _ h => nomatch h
      count := rfl }

theorem inv_effects (hL : L.Lawful) (h : Inv L P INSTANCE_ID n)
    (hobserved : (n.room docId r).observed = true)
    (heffects : Effects L P INSTANCE_ID true docId r n n') : Inv L P INSTANCE_ID n' := by
  have hone : n.observers docId r = 1 := by rw [h.observers, if_pos hobserved]
  obtain ⟨hprocess, hobservers, hfanned⟩ := fannedOut_effects hL hone heffects
  refine ⟨hprocess ▸ h.registry, fun doc k => ?_, fun doc => hprocess ▸ h.inside doc,
    hfanned h.fannedOut⟩
  rw [hobservers, h.observers, Node.room, Node.room, hprocess]

theorem inv_quiet (hL : L.Lawful) (h : Inv L P INSTANCE_ID n)
    (hquiet : Quiet L INSTANCE_ID n n') : Inv L P INSTANCE_ID n' := by
  refine ⟨hquiet.process ▸ h.registry, fun doc k => ?_, fun doc => hquiet.process ▸ h.inside doc,
    fannedOut_quiet hL h.fannedOut hquiet⟩
  rw [hquiet.observers, h.observers, Node.room, Node.room, hquiet.process]

theorem docs_turn {p p' : Process} {e : Rooms.Event}
    (h : Registry.step true p (docId, e) = some p') :
    (∀ doc, doc ≠ docId → p'.docs doc = p.docs doc) ∧
      (AllObserved (p.docs docId) → AllObserved (p'.docs docId)) ∧
      ∀ k, ((p'.docs docId).room k).observed = true ↔ ((p.docs docId).room k).observed = true ∨
        ∃ c, e = .attach c ∧ (p.docs docId).conn c = .joined k := by
  simp only [Registry.step, Option.map_eq_some_iff] at h
  obtain ⟨d, hd, rfl⟩ := h
  have hflags : ∀ k, (d.room k).observed = true ↔ ((view docId p).room k).observed = true ∨
      ∃ c, e = .attach c ∧ (view docId p).conn c = .joined k := step_observed hd
  simp only [Function.update_self]
  exact ⟨fun doc hdoc => Function.update_of_ne hdoc _ _,
    fun hall => allObserved_step (d := view docId p) hall hd, hflags⟩

theorem inv_turn (h : Inv L P INSTANCE_ID n) {process : Process} {e : Rooms.Event}
    {observers : String → RoomId → Nat}
    (hstep : Registry.step true n.process (docId, e) = some process)
    (hother : ∀ doc, doc ≠ docId → observers doc = n.observers doc)
    (hown : ∀ k, observers docId k = if ((process.docs docId).room k).observed then 1 else 0) :
    Inv L P INSTANCE_ID { n with process, observers } := by
  obtain ⟨hdocs, hinside, -⟩ := docs_turn hstep
  refine ⟨Registry.allInv_step h.registry hstep, fun doc k => ?_, fun doc => ?_,
    { h.fannedOut with }⟩
  · by_cases hdoc : doc = docId
    · exact hdoc ▸ hown k
    · have hsame : ({ n with process, observers } : Node Y A).room doc k = n.room doc k := by
        rw [Node.room, hdocs doc hdoc, Node.room]
      rw [hsame]
      exact (congrFun (hother doc hdoc) k).trans (h.observers doc k)
  · by_cases hdoc : doc = docId
    · exact hdoc ▸ hinside (h.inside docId)
    · simp only [hdocs doc hdoc]
      exact h.inside doc

theorem inv_stepDoc (h : Inv L P INSTANCE_ID n) {e : Rooms.Event} (he : ∀ c, e ≠ .attach c)
    (hstep : stepDoc true n docId e = some n') : Inv L P INSTANCE_ID n' := by
  simp only [stepDoc, Option.map_eq_some_iff] at hstep
  obtain ⟨process, hprocess, rfl⟩ := hstep
  refine inv_turn h hprocess (fun _ _ => rfl) fun k => ?_
  have hsame : ((process.docs docId).room k).observed = true ↔
      (n.room docId k).observed = true := by
    rw [(docs_turn hprocess).2.2 k]
    exact or_iff_left fun ⟨c, hc, _⟩ => he c hc
  simp only [h.observers, hsame]

/-- Whoever attaches leaves the room with exactly one pair of observers. -/
theorem inv_attachRoomObservers (h : Inv L P INSTANCE_ID n)
    (hc : (n.process.docs docId).conn c = .joined r)
    (hstep : attachRoomObservers true n docId r c = some n') :
    Inv L P INSTANCE_ID n' ∧ (n'.room docId r).observed = true := by
  unfold attachRoomObservers stepDoc at hstep
  rw [Option.map_eq_some_iff] at hstep
  obtain ⟨process, hprocess, rfl⟩ := hstep
  have hprocess' : Registry.step true n.process (docId, .attach c) = some process := by
    split at hprocess <;> exact hprocess
  have hflags : ∀ k, ((process.docs docId).room k).observed = true ↔
      (n.room docId k).observed = true ∨ k = r := by
    intro k
    rw [(docs_turn hprocess').2.2 k]
    refine or_congr_right ⟨?_, ?_⟩
    · rintro ⟨c', ⟨⟩, hc'⟩
      rw [hc, Conn.joined.injEq] at hc'
      exact hc'.symm
    · rintro rfl
      exact ⟨c, rfl, hc⟩
  refine ⟨?_, (hflags r).mpr (Or.inr rfl)⟩
  by_cases hobserved : (n.room docId r).observed = true
  · simp only [if_pos hobserved]
    refine inv_turn h hprocess' (fun _ _ => rfl) fun k => ?_
    simp only [hflags, h.observers]
    by_cases hk : k = r
    · simp [hk, hobserved]
    · simp [hk]
  · simp only [if_neg hobserved]
    refine inv_turn h hprocess' (fun doc hdoc => ?_) fun k => ?_
    · simp [set, Function.update_of_ne hdoc]
    · simp only [hflags, set, Function.update_self]
      by_cases hk : k = r
      · simp [hk, h.observers, hobserved]
      · simp [hk, h.observers]

theorem inv_onMessage (hL : L.Lawful) (h : Inv L P INSTANCE_ID n) (data : Bytes) :
    Inv L P INSTANCE_ID (onMessage L P INSTANCE_ID true n docId c data) := by
  unfold onMessage
  split
  · next r hc =>
    exact inv_effects hL h (h.inside docId c r hc) (effects_handleMessage docId r c n data)
  · exact inv_quiet hL h (quiet_setSocket _ _ _ _)

theorem inv_onClose (hL : L.Lawful) (h : Inv L P INSTANCE_ID n)
    (hstep : onClose L P INSTANCE_ID true n docId c = some n') : Inv L P INSTANCE_ID n' := by
  have hremoved : ∀ r socket awareness changed, Inv L P INSTANCE_ID
      (onAwareness L P INSTANCE_ID true (n.setSocket docId c socket) docId r .none awareness
        changed) := fun r socket awareness changed =>
    inv_quiet hL h (.trans (quiet_setSocket _ _ _ _) (quiet_onAwareness _ _ _ _ _ _))
  unfold onClose at hstep
  split at hstep
  · dsimp only at hstep
    split at hstep
    · obtain rfl := Option.some.inj hstep
      exact inv_quiet hL (hremoved _ _ _ _) (.of_eq rfl rfl rfl rfl rfl)
    · exact inv_stepDoc (hremoved _ _ _ _) (fun _ => Rooms.Event.noConfusion) hstep
  · obtain rfl := Option.some.inj hstep
    exact inv_quiet hL h (quiet_setSocket _ _ _ _)

theorem inv_step (hL : L.Lawful) (h : Inv L P INSTANCE_ID n) {e : Event Y A}
    (hstep : step L P INSTANCE_ID true n e = some n') : Inv L P INSTANCE_ID n' := by
  unfold step at hstep
  split at hstep
  · exact Option.some.inj hstep ▸ h
  cases e with
  | upgrade docId c =>
      simp only [turn, Option.ite_none_right_eq_some, Option.some.injEq] at hstep
      exact hstep.2 ▸ inv_quiet hL h (quiet_setSocket _ _ _ _)
  | authenticated docId c known =>
      simp only [turn, Option.ite_none_right_eq_some] at hstep
      obtain ⟨-, hknown⟩ := hstep
      split at hknown <;> obtain rfl := Option.some.inj hknown <;>
        exact inv_quiet hL h (quiet_setSocket _ _ _ _)
  | authorize docId c role =>
      simp only [turn, Option.ite_none_right_eq_some] at hstep
      cases role with
      | none =>
          obtain rfl := Option.some.inj hstep.2
          exact inv_quiet hL h (quiet_setSocket _ _ _ _)
      | some role =>
          exact inv_stepDoc (inv_quiet hL h (quiet_setSocket _ _ _ _))
            (fun _ => Rooms.Event.noConfusion) hstep.2
  | enter docId c =>
      simp only [turn] at hstep
      split at hstep
      · next r hc =>
        obtain ⟨m, hm, rfl⟩ := Option.map_eq_some_iff.mp hstep
        obtain ⟨hinv, hobserved⟩ := inv_attachRoomObservers h hc hm
        exact inv_effects hL hinv hobserved (effects_enter m docId r c)
      · obtain rfl := Option.some.inj hstep
        exact inv_quiet hL h (quiet_setSocket _ _ _ _)
      · cases hstep
  | frame docId c data =>
      simp only [turn, Option.ite_none_right_eq_some, Option.some.injEq] at hstep
      exact hstep.2 ▸ inv_onMessage hL h data
  | reject docId c =>
      simp only [turn, Option.ite_none_left_eq_some, Option.some.injEq] at hstep
      exact hstep.2 ▸ inv_quiet hL h (quiet_setSocket _ _ _ _)
  | close docId c =>
      simp only [turn, Option.ite_none_right_eq_some] at hstep
      exact inv_onClose hL h hstep.2
  | create docId r loaded =>
      simp only [turn] at hstep
      refine inv_stepDoc (inv_quiet hL h ?_) (fun _ => Rooms.Event.noConfusion) hstep
      cases loaded with
      | none => exact .refl n
      | some ydoc => exact .of_eq rfl rfl rfl rfl rfl
  | control docId e =>
      simp only [turn, Option.ite_none_right_eq_some] at hstep
      refine inv_stepDoc h (fun c hc => ?_) hstep.2
      rw [hc] at hstep
      cases hstep.1
  | expire docId r awareness changed =>
      obtain rfl := Option.some.inj hstep
      exact inv_quiet hL h
        ((quiet_onAwareness _ _ _ _ _ _).trans (.of_eq rfl rfl rfl rfl rfl))

theorem inv_deliver (hL : L.Lawful) (h : Inv L P INSTANCE_ID n) {message : Bytes}
    (hdeliver : deliver L P INSTANCE_ID true n docId message = some n') :
    Inv L P INSTANCE_ID n' := by
  unfold deliver at hdeliver
  split at hdeliver
  · cases hdeliver
  obtain ⟨⟨r, frame⟩, hcall, rfl⟩ := Option.map_eq_some_iff.mp hdeliver
  have hobserved := ((h.registry.2 docId).handler_iff r).mp (onMessageBuffer_eq_some hcall)
  exact inv_effects hL h hobserved.2.2 (effects_applyRemoteFrame n docId r frame)

/-! ## Runs of a fleet -/

variable {INSTANCE_IDS : ι → String} {s s' : Fleet ι Y A}

/-- Every process keeps its invariant, and none has applied a frame of its own. -/
def Fleet.Inv (L : Lib0) (P : Protocols Y A) (INSTANCE_IDS : ι → String) (s : Fleet ι Y A) : Prop :=
  (∀ i, FanOut.Inv L P (INSTANCE_IDS i) (s.node i)) ∧ ∀ a ∈ s.applied, a.1 ≠ a.2

theorem Fleet.inv_update (h : s.Inv L P INSTANCE_IDS) {i : ι}
    (hn : FanOut.Inv L P (INSTANCE_IDS i) n) (j : ι) :
    FanOut.Inv L P (INSTANCE_IDS j) (Function.update s.node i n j) := by
  by_cases hj : j = i
  · subst hj
    rwa [Function.update_self]
  · rw [Function.update_of_ne hj]
    exact h.1 j

theorem Fleet.inv_step (hL : L.Lawful) (h : s.Inv L P INSTANCE_IDS) {e : Fleet.Event ι Y A}
    (hstep : s.step L P INSTANCE_IDS e = some s') : s'.Inv L P INSTANCE_IDS := by
  cases e with
  | turn i e =>
      obtain ⟨n, hn, rfl⟩ := Option.map_eq_some_iff.mp hstep
      exact ⟨Fleet.inv_update h (FanOut.inv_step hL (h.1 i) hn), h.2⟩
  | deliver publisher k i =>
      obtain ⟨frame, hframe, rfl⟩ := Option.map_eq_some_iff.mp hstep
      cases hdeliver : deliver L P (INSTANCE_IDS i) true (s.node i) frame.docId frame.message with
      | none => exact h
      | some n =>
          refine ⟨Fleet.inv_update h (inv_deliver hL (h.1 i) hdeliver), fun a ha => ?_⟩
          rcases List.mem_append.mp ha with ha | ha
          · exact h.2 a ha
          · obtain rfl := List.mem_singleton.mp ha
            rintro (rfl : publisher = i)
            obtain ⟨content, hcontent⟩ :=
              (h.1 publisher).fannedOut.stamped frame (List.mem_of_getElem? hframe)
            rw [deliver, hcontent, onMessageBuffer_own hL, Option.map_none, ite_self] at hdeliver
            cases hdeliver

theorem Fleet.inv_run (hL : L.Lawful) {ydoc : Y} {awareness : A} {events : List (Fleet.Event ι Y A)}
    (h : run (Fleet.step L P INSTANCE_IDS) (.init ydoc awareness) events = some s) :
    s.Inv L P INSTANCE_IDS := by
  have hinit : (Fleet.init ydoc awareness : Fleet ι Y A).Inv L P INSTANCE_IDS :=
    ⟨fun _ => inv_init ydoc awareness, fun _ ha => nomatch ha⟩
  exact run_invariant (fun _ _ _ hs => Fleet.inv_step hL hs) hinit h

/-- Fan-out is exactly once, and the bus cannot echo: an update event sent one
frame to every open connection of its room but the one it came from, and none
to anybody else; it was published once unless it came from the bus; nobody
applied a frame it had published; and as many Sync frames were published as
update events fired that the bus did not cause. -/
theorem fan_out_exactly_once (L : Lib0) (hL : L.Lawful) (P : Protocols Y A)
    (INSTANCE_IDS : ι → String) (ydoc : Y) (awareness : A) (events : List (Fleet.Event ι Y A))
    (s : Fleet ι Y A)
    (h : run (Fleet.step L P INSTANCE_IDS) (.init ydoc awareness) events = some s) :
    (∀ i k u, (s.node i).updates[k]? = some u →
      (∀ docId c, (s.node i).framesOf k docId c =
        if docId = u.docId ∧ c ∈ u.audience ∧ u.origin ≠ .conn c then
          [.sync (P.writeUpdate u.update)]
        else []) ∧
      (s.node i).publishedOf k =
        if u.origin = .bus then []
        else [(u.docId, encodeFrame L (INSTANCE_IDS i) ⟨.Sync, u.update⟩)]) ∧
    (∀ a ∈ s.applied, a.1 ≠ a.2) ∧
    ∀ instances : Finset ι,
      ∑ i ∈ instances, ((s.node i).published.filter (isSync L)).length =
        ∑ i ∈ instances, (s.node i).ownUpdates.length := by
  have hs := Fleet.inv_run hL h
  refine ⟨fun i k u hu => ?_, hs.2, fun instances => ?_⟩
  · exact ⟨(hs.1 i).fannedOut.frames k u hu, (hs.1 i).fannedOut.published k u hu⟩
  · exact Finset.sum_congr rfl fun i _ => (hs.1 i).fannedOut.count

/-- A connection joins the one room of a document as an EDITOR. -/
def opens (docId : String) (c : ConnId)
    (creation : List (Event (List Bytes) Viewers.Clients)) :
    List (Event (List Bytes) Viewers.Clients) :=
  [.upgrade docId c, .authenticated docId c true, .authorize docId c (some .EDITOR)] ++ creation ++
    [.control docId (.resumeJoin c), .enter docId c]

/-- Two connections of one instance and one of another; the first one types, and
its frame reaches both instances. -/
def typesOnce : List (Fleet.Event Bool (List Bytes) Viewers.Clients) :=
  (opens "p:f" 0 [.create "p:f" 0 (some [])] ++ opens "p:f" 1 []).map (.turn false) ++
    (opens "p:f" 0 [.create "p:f" 0 (some [])]).map (.turn true) ++
    [.turn false (.frame "p:f" 0 [0, 2, 1, 5]), .deliver false 0 false, .deliver false 0 true]

def instanceIds (i : Bool) : String := if i then "b" else "a"

theorem fan_out_exactly_once_types : ∃ s : Fleet Bool (List Bytes) Viewers.Clients,
    run (Fleet.step varints Viewers.wholeUpdates instanceIds)
        (.init [] Viewers.wholeUpdates.newAwareness) typesOnce = some s ∧
      s.applied = [(false, true)] ∧
      (∀ docId c, (s.node false).framesOf 0 docId c =
        if docId = "p:f" ∧ c ∈ ({0, 1} : Finset ConnId) ∧ Origin.conn 0 ≠ .conn c then
          [.sync [2, 5]]
        else []) ∧
      (s.node true).publishedOf 0 = [] := by
  have hrun : (run (Fleet.step varints Viewers.wholeUpdates instanceIds)
        (.init [] Viewers.wholeUpdates.newAwareness) typesOnce).map
      (fun s => (s.applied, (s.node false).updates, (s.node true).updates)) =
      some ([(false, true)], [⟨"p:f", 0, .conn 0, [5], {1, 0}⟩], [⟨"p:f", 0, .bus, [5], {0}⟩]) := by
    rfl
  obtain ⟨s, hs, hvalues⟩ := Option.map_eq_some_iff.mp hrun
  simp only [Prod.mk.injEq] at hvalues
  obtain ⟨happlied, hfirst, hsecond⟩ := hvalues
  have hall := (fan_out_exactly_once varints lawful_varints _ _ _ _ _ _ hs).1
  obtain ⟨-, hpublished⟩ := hall true 0 ⟨"p:f", 0, .bus, [5], {0}⟩ (by rw [hsecond]; rfl)
  obtain ⟨hframes, -⟩ := hall false 0 ⟨"p:f", 0, .conn 0, [5], {1, 0}⟩ (by rw [hfirst]; rfl)
  refine ⟨s, hs, happlied, fun docId c => ?_, hpublished⟩
  rw [hframes, Finset.pair_comm]
  rfl

end FanOut

end CollabIDE.Collab.FanOut
