import CollabIDE.Collab.RoomsInvariant
import CollabIDE.Collab.Sockets
/-!
# Taking EDITOR rights away

A call that has changed a member closes the sockets it finds in the listed
rooms.  A socket keeps the rights it was let in with, and two kinds of frames
still reach a document after that: those that arrive behind the close, and
those of a connection that was not in a listed room yet.  Where neither kind
occurs, nothing the user sends is applied once the call has resolved.
-/

namespace CollabIDE.Collab.Sockets

open CollabIDE.Lib.Machine CollabIDE.Http.Errors CollabIDE.Auth.Authorize
open CollabIDE.Projects CollabIDE.Projects.MemberTable CollabIDE.Collab.Rooms

/-- The user has EDITOR rights or more, as the table is now. -/
def editor (s : Site) (userId : String) : Bool :=
  match findUnique s.membership.members userId with
  | some role => hasRole role .EDITOR
  | none => false

/-- The socket was let in as a writer, or is about to be. -/
def Socket.writer (socket : Socket) : Bool :=
  match socket.handshake with
  | .reading => false
  | .read (.ok access) => hasRole access.role .EDITOR
  | .read (.error _) => false
  | .done => socket.canWrite

/-- No frame of the socket is to change a document any more. -/
def Finished (socket : Socket) : Conn → Prop
  | .idle | .awaiting _ | .joined _ =>
    socket.closed = true ∧ ∀ frame ∈ socket.queued, frame.isWrite = false
  | .inside _ => socket.closed = true
  | _ => True

/-- Neither of the two ways around a walk is taken: no write of a user without
EDITOR rights is handled behind a close, and a walk for such a user finds every
writer among the user's sockets in a listed room. -/
def Orderly (s : Site) : Event → Prop
  | .message ref frame => ∀ socket r, s.socket ref = some socket →
      (s.docs ref.1).conn ref.2 = .inside r → socket.closing = true → socket.canWrite = true →
      frame.isWrite = true → editor s socket.userId = true
  | .enter ref => ∀ socket, s.socket ref = some socket → socket.closing = true →
      socket.canWrite = true → (∃ frame ∈ socket.queued, frame.isWrite = true) →
      editor s socket.userId = true
  | .walk call => ∀ userId result rooms,
      s.membership.calls[call]? = some (.disconnecting userId result) →
      s.listed call = some rooms → editor s userId = false →
      ∀ ref socket, s.socket ref = some socket → socket.userId = userId →
        socket.writer = true → ¬ Finished socket ((s.docs ref.1).conn ref.2) →
        ∃ room ∈ rooms, room.1 = ref.1 ∧ ((s.docs ref.1).conn ref.2 = .joined room.2 ∨
          (s.docs ref.1).conn ref.2 = .inside room.2)
  | _ => True

/-! ## What holds in every run -/

structure Known (docBusEnabled : Bool) (s : Site) : Prop where
  docs : ∀ docId, Rooms.Inv docBusEnabled (s.docs docId)
  /-- Rights are set as the handshake ends. -/
  canWrite : ∀ ref socket, s.socket ref = some socket → socket.canWrite = true →
    socket.writer = true

variable {docBusEnabled : Bool} {s s' : Site} {ref : ConnRef} {socket : Socket}

theorem known_init (projectId : String) (files : List String) (users : List Members.User)
    (members : Table) : Known docBusEnabled (Site.init projectId files users members) :=
  ⟨fun _ => inv_empty docBusEnabled, fun _ _ h => nomatch h⟩

theorem stepDoc_eq_some {docId : String} {e : Rooms.Event}
    (h : stepDoc docBusEnabled s docId e = some s') :
    ∃ d, Rooms.step docBusEnabled (s.docs docId) e = some d ∧
      s' = { s with docs := Function.update s.docs docId d } := by
  simp only [stepDoc, Option.map_eq_some_iff] at h
  obtain ⟨d, hd, rfl⟩ := h
  exact ⟨d, hd, rfl⟩

/-! ## Handling frames -/

/-- Handling frames changes a socket only by closing it. -/
structure Handled (before after : Socket) : Prop where
  userId : after.userId = before.userId
  handshake : after.handshake = before.handshake
  canWrite : after.canWrite = before.canWrite
  closed : after.closed = before.closed
  queued : after.queued = before.queued
  closing : before.closing = true → after.closing = true

theorem Handled.writer {after : Socket} (h : Handled socket after) :
    after.writer = socket.writer := by
  simp only [Socket.writer, h.handshake, h.canWrite]

theorem handled_handleMessage (ref : ConnRef) (socket : Socket) (frame : Frame) :
    Handled socket (handleMessage ref socket frame).1 := by
  cases frame <;> cases hcanWrite : socket.canWrite <;>
    simp only [handleMessage, hcanWrite, if_true, Bool.false_eq_true, if_false] <;>
    exact ⟨rfl, rfl, rfl, rfl, rfl, by simp [reject]⟩

theorem handled_handleQueued (ref : ConnRef) (socket : Socket) (frames : List Frame) :
    Handled socket (handleQueued ref socket frames).1 := by
  induction frames generalizing socket with
  | nil => exact ⟨rfl, rfl, rfl, rfl, rfl, id⟩
  | cons frame frames ih =>
      have hfirst := handled_handleMessage ref socket frame
      have hrest := ih (handleMessage ref socket frame).1
      exact ⟨hrest.userId.trans hfirst.userId, hrest.handshake.trans hfirst.handshake,
        hrest.canWrite.trans hfirst.canWrite, hrest.closed.trans hfirst.closed,
        hrest.queued.trans hfirst.queued, fun h => hrest.closing (hfirst.closing h)⟩

theorem mem_handleMessage {frame : Frame} {entry : Applied}
    (h : entry ∈ (handleMessage ref socket frame).2) :
    entry.userId = socket.userId ∧ socket.canWrite = true ∧ frame.isWrite = true := by
  cases frame <;> cases hcanWrite : socket.canWrite <;>
    simp only [handleMessage, hcanWrite, if_true, Bool.false_eq_true, if_false, List.not_mem_nil,
      List.mem_singleton] at h
  all_goals exact ⟨by rw [h], rfl, rfl⟩

theorem mem_handleQueued {frames : List Frame} {entry : Applied}
    (h : entry ∈ (handleQueued ref socket frames).2) :
    entry.userId = socket.userId ∧ socket.canWrite = true ∧
      ∃ frame ∈ frames, frame.isWrite = true := by
  induction frames generalizing socket with
  | nil => cases h
  | cons frame frames ih =>
      rcases List.mem_append.mp h with hfirst | hrest
      · obtain ⟨huser, hcanWrite, hwrite⟩ := mem_handleMessage hfirst
        exact ⟨huser, hcanWrite, frame, List.mem_cons_self, hwrite⟩
      · obtain ⟨huser, hcanWrite, frame', hmem, hwrite⟩ := ih hrest
        have hhandled := handled_handleMessage ref socket frame
        exact ⟨huser.trans hhandled.userId, hhandled.canWrite ▸ hcanWrite, frame',
          List.mem_cons_of_mem _ hmem, hwrite⟩

/-! ## A connection's way through the rooms -/

theorem Finished.next {before after : Conn} (h : Finished socket before)
    (hnext : before.Next after) : Finished socket after := by
  cases before <;> cases after <;> simp_all [Finished, Conn.Next]

theorem finished_update {docId : String} {e : Rooms.Event} {d : Doc}
    (hd : Rooms.step docBusEnabled (s.docs docId) e = some d)
    (h : Finished socket ((s.docs ref.1).conn ref.2)) :
    Finished socket ((Function.update s.docs docId d ref.1).conn ref.2) := by
  by_cases hid : ref.1 = docId
  · subst hid
    rw [Function.update_self]
    rcases step_conn hd with hsame | ⟨c, conn, hconn, hnext⟩
    · rwa [hsame]
    · rw [hconn, Function.update_apply]
      split
      · next heq => exact (heq ▸ h).next hnext
      · exact h
  · rwa [Function.update_of_ne hid]

theorem docs_update {docId : String} {e : Rooms.Event} {d : Doc}
    (hs : ∀ docId, Rooms.Inv docBusEnabled (s.docs docId))
    (hd : Rooms.step docBusEnabled (s.docs docId) e = some d) (docId' : String) :
    Rooms.Inv docBusEnabled (Function.update s.docs docId d docId') := by
  rw [Function.update_apply]
  split
  · exact Rooms.inv_step (hs docId) hd
  · exact hs docId'

/-! ## What a step does -/

/-- The steps of a site, one constructor for each way a turn can go. -/
inductive Took (docBusEnabled : Bool) (s : Site) : Event → Site → Prop
  | members {e : Members.Event} {membership : Members.State}
      (hother : ∀ call userId result, e = .statement call →
        s.membership.calls[call]? ≠ some (.disconnecting userId result))
      (hstep : Members.step s.membership e = some membership) :
      Took docBusEnabled s (.members e) { s with membership }
  | connect (ref : ConnRef) (userId : String) (early : List Frame) :
      Took docBusEnabled s (.connect ref userId early)
        (s.setSocket ref ⟨userId, .reading, false, false, false, early⟩)
  | readAccess {ref : ConnRef} {socket : Socket} (hsocket : s.socket ref = some socket)
      (hreading : socket.handshake = .reading) :
      Took docBusEnabled s (.readAccess ref) (s.setSocket ref { socket with
        handshake := .read
          (assertProjectAccess s.membership.members socket.userId s.projectId .VIEWER) })
  | join {ref : ConnRef} {socket : Socket} {access : ProjectAccess} {d : Doc}
      (hsocket : s.socket ref = some socket) (hread : socket.handshake = .read (.ok access))
      (hd : Rooms.step docBusEnabled (s.docs ref.1) (.join ref.2) = some d) :
      Took docBusEnabled s (.authorize ref) { s.setSocket ref { socket with
        handshake := .done, canWrite := hasRole access.role .EDITOR } with
          docs := Function.update s.docs ref.1 d }
  | turnAway {ref : ConnRef} {socket : Socket} {error : AppError}
      (hsocket : s.socket ref = some socket) (hread : socket.handshake = .read (.error error)) :
      Took docBusEnabled s (.authorize ref)
        (s.setSocket ref (reject { socket with handshake := .done }))
  | enter {ref : ConnRef} {socket : Socket} {r : RoomId} {d : Doc}
      (hsocket : s.socket ref = some socket) (hconn : (s.docs ref.1).conn ref.2 = .joined r)
      (hd : Rooms.step docBusEnabled (s.docs ref.1) (.attach ref.2) = some d) :
      Took docBusEnabled s (.enter ref)
        { s.setSocket ref (handleQueued ref { socket with queued := [] } socket.queued).1 with
          docs := Function.update s.docs ref.1 d
          applied := s.applied ++
            (handleQueued ref { socket with queued := [] } socket.queued).2 }
  | refuse {ref : ConnRef} {socket : Socket} (hsocket : s.socket ref = some socket) :
      Took docBusEnabled s (.enter ref) (s.setSocket ref (reject socket))
  | rooms {docId : String} {e : Rooms.Event} {d : Doc}
      (hd : Rooms.step docBusEnabled (s.docs docId) e = some d) :
      Took docBusEnabled s (.rooms docId e) { s with docs := Function.update s.docs docId d }
  | handle {ref : ConnRef} {socket : Socket} {r : RoomId} (frame : Frame)
      (hsocket : s.socket ref = some socket) (hopen : socket.closed = false)
      (hconn : (s.docs ref.1).conn ref.2 = .inside r) :
      Took docBusEnabled s (.message ref frame)
        { s.setSocket ref (handleMessage ref socket frame).1 with
          applied := s.applied ++ (handleMessage ref socket frame).2 }
  | queue {ref : ConnRef} {socket : Socket} (frame : Frame)
      (hsocket : s.socket ref = some socket) (hopen : socket.closed = false) :
      Took docBusEnabled s (.message ref frame)
        (s.setSocket ref { socket with queued := socket.queued ++ [frame] })
  | textMessage {ref : ConnRef} {socket : Socket} (hsocket : s.socket ref = some socket) :
      Took docBusEnabled s (.textMessage ref) (s.setSocket ref (reject socket))
  | leave {ref : ConnRef} {socket : Socket} {d : Doc} (hsocket : s.socket ref = some socket)
      (hd : Rooms.step docBusEnabled (s.docs ref.1) (.leave ref.2) = some d) :
      Took docBusEnabled s (.close ref) { s.setSocket ref { socket with closed := true } with
        docs := Function.update s.docs ref.1 d }
  | closeEarly {ref : ConnRef} {socket : Socket} (hsocket : s.socket ref = some socket) :
      Took docBusEnabled s (.close ref) (s.setSocket ref { socket with closed := true })
  | listRooms (call : Nat) :
      Took docBusEnabled s (.listRooms call)
        { s with listed := Function.update s.listed call (some (allRooms s)) }
  | walk {call : Nat} {userId : String} {result : Option Members.MemberSummary}
      {rooms : List (String × RoomId)} {membership : Members.State}
      (hcall : s.membership.calls[call]? = some (.disconnecting userId result))
      (hlisted : s.listed call = some rooms)
      (hstep : Members.step s.membership (.statement call) = some membership) :
      Took docBusEnabled s (.walk call) { closeWalked s rooms userId with membership }

theorem took_members {e : Members.Event} (h : step docBusEnabled s (.members e) = some s') :
    Took docBusEnabled s (.members e) s' := by
  cases e with
  | statement call =>
      cases hcall : s.membership.calls[call]? with
      | none =>
          simp only [step, hcall, Option.map_eq_some_iff] at h
          obtain ⟨membership, hstep, rfl⟩ := h
          refine .members ?_ hstep
          rintro _ userId result ⟨⟩
          simp [hcall]
      | some c =>
          cases c <;> simp only [step, hcall, reduceCtorEq, Option.map_eq_some_iff] at h
          all_goals
            obtain ⟨membership, hstep, rfl⟩ := h
            refine .members ?_ hstep
            rintro _ userId result ⟨⟩
            simp [hcall]
  | _ =>
      simp only [step, Option.map_eq_some_iff] at h
      obtain ⟨membership, hstep, rfl⟩ := h
      exact .members (fun _ _ _ h => nomatch h) hstep

theorem took_walk {call : Nat} (h : step docBusEnabled s (.walk call) = some s') :
    Took docBusEnabled s (.walk call) s' := by
  cases hcall : s.membership.calls[call]? with
  | none => simp [step, hcall] at h
  | some c =>
      cases c <;> simp only [step, hcall, reduceCtorEq] at h
      next userId result =>
        cases hlisted : s.listed call with
        | none => simp [hlisted] at h
        | some rooms =>
            simp only [hlisted, Option.ite_none_right_eq_some, Option.map_eq_some_iff] at h
            obtain ⟨-, membership, hstep, rfl⟩ := h
            exact .walk hcall hlisted hstep

theorem took_socket {e : Event} (hsocket : s.socket ref = some socket)
    (he : e = .readAccess ref ∨ e = .authorize ref ∨ e = .enter ref ∨
      (∃ frame, e = .message ref frame) ∨ e = .textMessage ref ∨ e = .close ref)
    (h : step docBusEnabled s e = some s') : Took docBusEnabled s e s' := by
  rcases he with rfl | rfl | rfl | ⟨frame, rfl⟩ | rfl | rfl
  · cases hread : socket.handshake <;>
      simp only [step, hsocket, hread, reduceCtorEq, Option.some.injEq] at h
    exact h ▸ .readAccess hsocket hread
  · cases hread : socket.handshake <;> simp only [step, hsocket, hread, reduceCtorEq] at h
    next access =>
      cases access with
      | error e =>
          cases h
          exact .turnAway hsocket hread
      | ok access =>
          obtain ⟨d, hd, rfl⟩ := stepDoc_eq_some h
          exact .join hsocket hread hd
  · cases hconn : (s.docs ref.1).conn ref.2 <;>
      simp only [step, hsocket, hconn, reduceCtorEq, Option.some.injEq] at h
    · obtain ⟨d, hd, rfl⟩ := stepDoc_eq_some h
      exact .enter hsocket hconn hd
    · exact h ▸ .refuse hsocket
  · simp only [step, hsocket, Option.ite_none_left_eq_some, Bool.not_eq_true] at h
    obtain ⟨hopen, h⟩ := h
    cases hconn : (s.docs ref.1).conn ref.2 <;>
      simp only [hconn, Option.some.injEq] at h <;> subst h
    case inside r => exact .handle frame hsocket hopen hconn
    all_goals exact .queue frame hsocket hopen
  · simp only [step, hsocket, Option.ite_none_left_eq_some, Option.some.injEq] at h
    exact h.2 ▸ .textMessage hsocket
  · simp only [step, hsocket, Option.ite_none_left_eq_some] at h
    obtain ⟨-, h⟩ := h
    cases hconn : (s.docs ref.1).conn ref.2 <;> simp only [hconn, Option.some.injEq] at h
    case inside r =>
      obtain ⟨d, hd, rfl⟩ := stepDoc_eq_some h
      exact .leave hsocket hd
    all_goals exact h ▸ .closeEarly hsocket

theorem took {e : Event} (h : step docBusEnabled s e = some s') :
    Took docBusEnabled s e s' := by
  cases e with
  | members e => exact took_members h
  | connect ref userId early =>
      simp only [step, Option.ite_none_right_eq_some, Option.some.injEq] at h
      exact h.2 ▸ .connect ref userId early
  | rooms docId turn =>
      simp only [step, Option.ite_none_right_eq_some] at h
      obtain ⟨d, hd, rfl⟩ := stepDoc_eq_some h.2
      exact .rooms hd
  | listRooms call =>
      cases hcall : s.membership.calls[call]? with
      | none => simp [step, hcall] at h
      | some c =>
          cases c <;> cases hlisted : s.listed call <;>
            simp only [step, hcall, hlisted, reduceCtorEq, Option.some.injEq] at h
          exact h ▸ .listRooms call
  | walk call => exact took_walk h
  | _ ref =>
      cases hsocket : s.socket ref with
      | none => simp [step, hsocket] at h
      | some socket => exact took_socket hsocket (by simp) h

/-- What becomes of one socket: it is new or was there before, and then it
stays closed or closing, queues nothing once it is closed, and is a writer only
if it was one or its user is an editor now. -/
structure From (s : Site) (before after : Socket) : Prop where
  userId : after.userId = before.userId
  closing : before.closing = true → after.closing = true
  closed : before.closed = true → after.closed = true
  queued : before.closed = true → ∀ frame ∈ after.queued, frame ∈ before.queued
  writer : after.writer = true → before.writer = true ∨ editor s before.userId = true
  canWrite : after.canWrite = true → after.writer = true

theorem from_handled {after : Socket} (hcanWrite : socket.canWrite = true → socket.writer = true)
    (h : Handled socket after) : From s socket after :=
  ⟨h.userId, h.closing, fun hclosed => h.closed.trans hclosed,
    fun _ _ hframe => h.queued ▸ hframe, fun hwriter => Or.inl (h.writer ▸ hwriter),
    fun hwrite => h.writer ▸ hcanWrite (h.canWrite ▸ hwrite)⟩

theorem from_refl (hcanWrite : socket.canWrite = true → socket.writer = true) :
    From s socket socket :=
  from_handled hcanWrite ⟨rfl, rfl, rfl, rfl, rfl, id⟩

theorem from_reject (hcanWrite : socket.canWrite = true → socket.writer = true) :
    From s socket (reject socket) :=
  from_handled hcanWrite ⟨rfl, rfl, rfl, rfl, rfl, fun _ => rfl⟩

theorem from_readAccess (hreading : socket.handshake = .reading)
    (hcanWrite : socket.canWrite = true → socket.writer = true) :
    From s socket { socket with
      handshake := .read
        (assertProjectAccess s.membership.members socket.userId s.projectId .VIEWER) } := by
  have hno : socket.writer = false := by simp [Socket.writer, hreading]
  refine ⟨rfl, id, id, fun _ _ => id, fun hwriter => Or.inr ?_, fun hwrite => ?_⟩
  · cases haccess : assertProjectAccess s.membership.members socket.userId s.projectId .VIEWER with
    | error e => simp [Socket.writer, haccess] at hwriter
    | ok access =>
        simp only [Socket.writer, haccess] at hwriter
        rwa [editor, (assertProjectAccess_eq_ok haccess).1]
  · rw [hcanWrite hwrite] at hno
    cases hno

theorem from_done {canWrite : Bool} (hcanWrite : canWrite = true → socket.writer = true) :
    From s socket { socket with handshake := .done, canWrite } :=
  ⟨rfl, id, id, fun _ _ => id, fun hwriter => Or.inl (hcanWrite hwriter), fun hwrite => hwrite⟩

theorem from_setSocket {before after : Socket} (hbefore : s.socket ref = some before)
    (hfrom : From s before after)
    (hrest : ∀ ref socket, s.socket ref = some socket → From s socket socket)
    {other : ConnRef} {socket' : Socket}
    (h : Function.update s.socket ref (some after) other = some socket') :
    ∃ socket, s.socket other = some socket ∧ From s socket socket' := by
  rw [Function.update_apply] at h
  split at h
  · next hother =>
      cases h
      exact ⟨before, hother ▸ hbefore, hfrom⟩
  · exact ⟨socket', h, hrest other socket' h⟩

theorem step_socket {e : Event} (hs : Known docBusEnabled s)
    (h : step docBusEnabled s e = some s') {socket' : Socket}
    (hsocket' : s'.socket ref = some socket') :
    (socket'.writer = false ∧ socket'.canWrite = false ∧
        ∃ early, e = .connect ref socket'.userId early) ∨
      ∃ socket, s.socket ref = some socket ∧ From s socket socket' := by
  have hsame : ∀ ref socket, s.socket ref = some socket → From s socket socket :=
    fun ref socket hsocket => from_refl (hs.canWrite ref socket hsocket)
  cases took h with
  | members | rooms | listRooms => exact Or.inr ⟨socket', hsocket', hsame ref socket' hsocket'⟩
  | connect target userId early =>
      simp only [Site.setSocket, Function.update_apply] at hsocket'
      split at hsocket'
      · next htarget =>
          subst htarget
          cases hsocket'
          exact Or.inl ⟨rfl, rfl, early, rfl⟩
      · exact Or.inr ⟨socket', hsocket', hsame ref socket' hsocket'⟩
  | readAccess hsocket hreading =>
      have hfrom := from_readAccess (s := s) hreading (hs.canWrite _ _ hsocket)
      exact Or.inr (from_setSocket hsocket hfrom hsame hsocket')
  | join hsocket hread hd =>
      refine Or.inr (from_setSocket hsocket (from_done fun hwrite => ?_) hsame hsocket')
      simpa [Socket.writer, hread] using hwrite
  | @turnAway target socket error hsocket hread =>
      have hdone := from_done (s := s) (hs.canWrite target socket hsocket)
      have hturned : From s socket (reject { socket with handshake := .done }) :=
        { hdone with closing := fun _ => rfl }
      exact Or.inr (from_setSocket hsocket hturned hsame hsocket')
  | @enter target socket r d hsocket hconn hd =>
      have hfrom : From s { socket with queued := [] } _ :=
        from_handled (hs.canWrite target socket hsocket)
          (handled_handleQueued target _ socket.queued)
      have hdrained : From s socket _ := { hfrom with
        queued := fun hclosed frame hframe => nomatch hfrom.queued hclosed frame hframe }
      exact Or.inr (from_setSocket hsocket hdrained hsame hsocket')
  | refuse hsocket | textMessage hsocket =>
      have hfrom := from_reject (s := s) (hs.canWrite _ _ hsocket)
      exact Or.inr (from_setSocket hsocket hfrom hsame hsocket')
  | @handle target socket r frame hsocket hopen hconn =>
      have hfrom := from_handled (s := s) (hs.canWrite _ _ hsocket)
        (handled_handleMessage target socket frame)
      exact Or.inr (from_setSocket hsocket hfrom hsame hsocket')
  | @queue target socket frame hsocket hopen =>
      have hqueue : From s socket { socket with queued := socket.queued ++ [frame] } :=
        { hsame target socket hsocket with
          queued := fun hclosed => absurd (hopen.symm.trans hclosed) Bool.false_ne_true }
      exact Or.inr (from_setSocket hsocket hqueue hsame hsocket')
  | @leave target socket d hsocket | @closeEarly target socket hsocket =>
      have hclose : From s socket { socket with closed := true } :=
        { hsame target socket hsocket with closed := fun _ => rfl }
      exact Or.inr (from_setSocket hsocket hclose hsame hsocket')
  | walk hcall hlisted hstep =>
      simp only [closeWalked, Option.map_eq_some_iff] at hsocket'
      obtain ⟨socket, hsocket, rfl⟩ := hsocket'
      refine Or.inr ⟨socket, hsocket, ?_⟩
      split
      · exact from_reject (hs.canWrite ref socket hsocket)
      · exact hsame ref socket hsocket

theorem step_docs {e : Event} (h : step docBusEnabled s e = some s') :
    s'.docs = s.docs ∨ ∃ docId turn d, Rooms.step docBusEnabled (s.docs docId) turn = some d ∧
      s'.docs = Function.update s.docs docId d := by
  cases took h with
  | join _ _ hd | enter _ _ hd | rooms hd | leave _ hd => exact Or.inr ⟨_, _, _, hd, rfl⟩
  | _ => exact Or.inl rfl

theorem step_applied {e : Event} (h : step docBusEnabled s e = some s') :
    ∃ later, s'.applied = s.applied ++ later ∧ ∀ entry ∈ later, ∃ ref socket,
      s.socket ref = some socket ∧ entry.userId = socket.userId ∧ socket.canWrite = true ∧
      ((∃ frame r, e = .message ref frame ∧ frame.isWrite = true ∧ socket.closed = false ∧
          (s.docs ref.1).conn ref.2 = .inside r) ∨
        ∃ r, e = .enter ref ∧ (∃ frame ∈ socket.queued, frame.isWrite = true) ∧
          (s.docs ref.1).conn ref.2 = .joined r) := by
  cases took h with
  | @enter target socket r d hsocket hconn hd =>
      refine ⟨_, rfl, fun entry hentry => ?_⟩
      obtain ⟨huser, hcanWrite, hwrite⟩ := mem_handleQueued hentry
      exact ⟨target, socket, hsocket, huser, hcanWrite, Or.inr ⟨r, rfl, hwrite, hconn⟩⟩
  | @handle target socket r frame hsocket hopen hconn =>
      refine ⟨_, rfl, fun entry hentry => ?_⟩
      obtain ⟨huser, hcanWrite, hwrite⟩ := mem_handleMessage hentry
      exact ⟨target, socket, hsocket, huser, hcanWrite,
        Or.inl ⟨frame, r, rfl, hwrite, hopen, hconn⟩⟩
  | _ => exact ⟨[], (List.append_nil _).symm, fun _ h => nomatch h⟩

theorem known_step {e : Event} (hs : Known docBusEnabled s)
    (h : step docBusEnabled s e = some s') : Known docBusEnabled s' := by
  constructor
  · rcases step_docs h with hsame | ⟨docId, turn, d, hd, hupdate⟩
    · exact hsame ▸ hs.docs
    · exact hupdate ▸ docs_update hs.docs hd
  · intro ref socket hsocket hcanWrite
    rcases step_socket hs h hsocket with ⟨-, hno, -⟩ | ⟨before, -, hfrom⟩
    · rw [hno] at hcanWrite
      cases hcanWrite
    · exact hfrom.canWrite hcanWrite

theorem known_run {projectId : String} {files : List String} {users : List Members.User}
    {members : Table} {events : List Event}
    (h : run (step docBusEnabled) (Site.init projectId files users members) events = some s) :
    Known docBusEnabled s :=
  run_invariant (fun _ _ _ => known_step) (known_init projectId files users members) h

theorem connected_run {events : List Event} (hs : Known docBusEnabled s)
    (h : run (step docBusEnabled) s events = some s') (hsocket : s'.socket ref = some socket) :
    (∃ early, .connect ref socket.userId early ∈ events) ∨
      ∃ first, s.socket ref = some first ∧ first.userId = socket.userId := by
  induction events generalizing s with
  | nil =>
      cases h
      exact Or.inr ⟨socket, hsocket, rfl⟩
  | cons e events ih =>
      obtain ⟨t, ht, hrest⟩ := run_cons_eq_some.mp h
      rcases ih (known_step hs ht) hrest with ⟨early, hmem⟩ | ⟨second, hsecond, huser⟩
      · exact Or.inl ⟨early, List.mem_cons_of_mem _ hmem⟩
      · rcases step_socket hs ht hsecond with ⟨-, -, early, rfl⟩ | ⟨first, hfirst, hfrom⟩
        · exact Or.inl ⟨early, huser ▸ List.mem_cons_self⟩
        · exact Or.inr ⟨first, hfirst, hfrom.userId.symm.trans huser⟩

/-! ## After the walk -/

/-- Every writer among the user's sockets is being closed, or is finished. -/
def Revoked (s : Site) (userId : String) : Prop :=
  ∀ ref socket, s.socket ref = some socket → socket.userId = userId → socket.writer = true →
    socket.closing = true ∨ Finished socket ((s.docs ref.1).conn ref.2)

theorem Finished.mono {after : Socket} {conn : Conn} (h : Finished socket conn)
    (hfrom : From s socket after) : Finished after conn := by
  have hclosed := hfrom.closed
  have hqueued := hfrom.queued
  cases conn <;> simp only [Finished] at h ⊢
  case inside r => exact hclosed h
  all_goals exact ⟨hclosed h.1, fun frame hframe => h.2 frame (hqueued h.1 frame hframe)⟩

theorem revoked_step {e : Event} {userId : String} (hs : Known docBusEnabled s)
    (hrevoked : Revoked s userId) (hlost : editor s userId = false)
    (h : step docBusEnabled s e = some s') : Revoked s' userId := by
  intro ref socket' hsocket' huser hwriter
  rcases step_socket hs h hsocket' with ⟨hno, -, -⟩ | ⟨socket, hsocket, hfrom⟩
  · rw [hno] at hwriter
    cases hwriter
  · have huser' : socket.userId = userId := hfrom.userId.symm.trans huser
    have hwriter' : socket.writer = true := by
      rcases hfrom.writer hwriter with hwas | hnow
      · exact hwas
      · rw [huser', hlost] at hnow
        cases hnow
    rcases hrevoked ref socket hsocket huser' hwriter' with hclosing | hfinished
    · exact Or.inl (hfrom.closing hclosing)
    · right
      have hkept : Finished socket ((s'.docs ref.1).conn ref.2) := by
        rcases step_docs h with hsame | ⟨docId, turn, d, hd, hupdate⟩
        · exact hsame ▸ hfinished
        · exact hupdate ▸ finished_update hd hfinished
      exact hkept.mono hfrom

/-- The walk of a call revokes: a writer in a listed room is in its `conns`. -/
theorem revoked_walk {call : Nat} {userId : String} {result : Option Members.MemberSummary}
    (hs : Known docBusEnabled s)
    (hcall : s.membership.calls[call]? = some (.disconnecting userId result))
    (hlost : editor s userId = false) (hok : Orderly s (.walk call))
    (h : step docBusEnabled s (.walk call) = some s') : Revoked s' userId := by
  cases took h with
  | @walk _ userId' result' rooms membership hcall' hlisted hstep =>
      cases hcall.symm.trans hcall'
      intro ref socket' hsocket' huser hwriter
      simp only [closeWalked, Option.map_eq_some_iff] at hsocket'
      obtain ⟨socket, hsocket, rfl⟩ := hsocket'
      by_cases hwalks : walks s rooms userId ref socket = true
      · exact Or.inl (by rw [if_pos hwalks]; rfl)
      · rw [if_neg hwalks] at huser hwriter ⊢
        by_cases hfinished : Finished socket ((s.docs ref.1).conn ref.2)
        · exact Or.inr hfinished
        · obtain ⟨room, hroom, hid, hconn⟩ :=
            hok userId result rooms hcall hlisted hlost ref socket hsocket huser hwriter hfinished
          have hholds : ((s.docs ref.1).conn ref.2).Holds room.2 := hconn.imp_right Or.inl
          have hin := ((hs.docs ref.1).conns_iff room.2 ref.2).mpr hholds
          have hready := ((hs.docs ref.1).conns_entry room.2 ref.2 hin).2
          refine absurd ?_ hwalks
          simp only [walks, decide_eq_true_eq]
          exact ⟨huser, room, hroom, hid, hid ▸ hready, hid ▸ hin⟩

/-- What a run from `s` has applied, with nothing of the user's in it. -/
def AppliedWithout (userId : String) (s s' : Site) : Prop :=
  ∃ later, s'.applied = s.applied ++ later ∧ ∀ entry ∈ later, entry.userId ≠ userId

theorem applied_of_revoked {e : Event} {userId : String} (hs : Known docBusEnabled s)
    (hrevoked : Revoked s userId) (hlost : editor s userId = false) (hok : Orderly s e)
    (h : step docBusEnabled s e = some s') : AppliedWithout userId s s' := by
  obtain ⟨later, happlied, hlater⟩ := step_applied h
  refine ⟨later, happlied, fun entry hentry huser => ?_⟩
  obtain ⟨ref, socket, hsocket, huser', hcanWrite, hhow⟩ := hlater entry hentry
  have husersocket : socket.userId = userId := huser'.symm.trans huser
  have hclosing := hrevoked ref socket hsocket husersocket
    (hs.canWrite ref socket hsocket hcanWrite)
  have heditor : editor s socket.userId = true := by
    rcases hhow with ⟨frame, r, rfl, hwrite, hclosed, hconn⟩ | ⟨r, rfl, hwrite, hconn⟩
    · rw [hconn, Finished, hclosed] at hclosing
      exact hok socket r hsocket hconn (hclosing.resolve_right Bool.false_ne_true) hcanWrite hwrite
    · rw [hconn, Finished] at hclosing
      obtain ⟨frame, hframe, hwrites⟩ := hwrite
      refine hok socket hsocket (hclosing.resolve_right fun hdone => ?_) hcanWrite
        ⟨frame, hframe, hwrites⟩
      rw [hdone.2 frame hframe] at hwrites
      cases hwrites
  rw [husersocket, hlost] at heditor
  cases heditor

/-! ## Whole runs -/

theorem disconnecting_step {e : Event} {call : Nat} {userId : String}
    {result : Option Members.MemberSummary} (hne : e ≠ .walk call)
    (hcall : s.membership.calls[call]? = some (.disconnecting userId result))
    (h : step docBusEnabled s e = some s') :
    s'.membership.calls[call]? = some (.disconnecting userId result) := by
  have hlt : call < s.membership.calls.length := (List.getElem?_eq_some_iff.mp hcall).1
  have hset : ∀ {other : Nat} {membership : Members.State}, other ≠ call →
      Members.step s.membership (.statement other) = some membership →
      membership.calls[call]? = some (.disconnecting userId result) := by
    intro other membership hother hstep
    simp only [Members.step, Option.bind_eq_some_iff, Option.map_eq_some_iff] at hstep
    obtain ⟨c, -, t, -, rfl⟩ := hstep
    rwa [List.getElem?_set_ne hother]
  cases took h with
  | @members e membership hother hstep =>
      cases e with
      | statement other =>
          refine hset ?_ hstep
          rintro rfl
          exact hother _ userId result rfl hcall
      | _ =>
          simp only [Members.step, Option.some.injEq] at hstep
          subst hstep
          rwa [List.getElem?_append_left hlt]
  | @walk other userId' result' rooms membership hcall' hlisted hstep =>
      exact hset (fun heq => hne (heq ▸ rfl)) hstep
  | _ => exact hcall

/-- A call that takes EDITOR rights away is disconnecting the user, or has. -/
def Disconnects (call : Nat) (userId : String) (s : Site) : Prop :=
  (∃ result, s.membership.calls[call]? = some (.disconnecting userId result)) ∨ Revoked s userId

theorem disconnects_step {e : Event} {call : Nat} {userId : String} (hs : Known docBusEnabled s)
    (hcall : Disconnects call userId s) (hlost : editor s userId = false) (hok : Orderly s e)
    (h : step docBusEnabled s e = some s') : Disconnects call userId s' := by
  rcases hcall with ⟨result, hcall⟩ | hrevoked
  · by_cases he : e = .walk call
    · subst he
      exact Or.inr (revoked_walk hs hcall hlost hok h)
    · exact Or.inl ⟨result, disconnecting_step he hcall h⟩
  · exact Or.inr (revoked_step hs hrevoked hlost h)

/-- Once a call that takes EDITOR rights away has resolved, nothing the user
sends is applied until the rights are given again, in every orderly run. -/
theorem revocation_complete (docBusEnabled : Bool) (projectId : String) (files : List String)
    (users : List Members.User) (members : Table) (before during after : List Event)
    (s₁ s₂ s₃ : Site) (call : Nat) (userId : String) (result : Option Members.MemberSummary)
    (hbefore : run (step docBusEnabled) (Site.init projectId files users members) before =
      some s₁)
    (hcall : s₁.membership.calls[call]? = some (.disconnecting userId result))
    (hduring : run (step docBusEnabled) s₁ during = some s₂)
    (hresolved : s₂.membership.calls[call]? = some (.resolved result))
    (hafter : run (step docBusEnabled) s₂ after = some s₃)
    (hlost : Meets (step docBusEnabled) (fun s _ => editor s userId = false) s₁
      (during ++ after))
    (hok : Meets (step docBusEnabled) Orderly s₁ (during ++ after)) :
    AppliedWithout userId s₂ s₃ := by
  have hboth := (meets_append hduring).mp (hlost.and hok)
  have hrevoked : Known docBusEnabled s₂ ∧ Revoked s₂ userId := by
    have hphase : Known docBusEnabled s₂ ∧ Disconnects call userId s₂ :=
      run_invariant_of_meets (P := fun s => Known docBusEnabled s ∧ Disconnects call userId s)
        (fun _ _ _ hs hstep h =>
          ⟨known_step hs.1 h, disconnects_step hs.1 hs.2 hstep.1 hstep.2 h⟩)
        ⟨known_run hbefore, Or.inl ⟨result, hcall⟩⟩ hboth.1 hduring
    refine ⟨hphase.1, hphase.2.resolve_left ?_⟩
    rintro ⟨result', hcall'⟩
    rw [hresolved] at hcall'
    cases hcall'
  have hinit : (Known docBusEnabled s₂ ∧ Revoked s₂ userId) ∧ AppliedWithout userId s₂ s₂ :=
    ⟨hrevoked, [], (List.append_nil _).symm, fun _ h => nomatch h⟩
  refine (run_invariant_of_meets (P := fun s => (Known docBusEnabled s ∧ Revoked s userId) ∧
    AppliedWithout userId s₂ s) ?_ hinit hboth.2 hafter).2
  intro s e t hs hstep h
  obtain ⟨⟨hknown, hrevoked⟩, sofar, happlied, hsofar⟩ := hs
  obtain ⟨later, hlater, hothers⟩ := applied_of_revoked hknown hrevoked hstep.1 hstep.2 h
  refine ⟨⟨known_step hknown h, revoked_step hknown hrevoked hstep.1 h⟩, sofar ++ later, ?_, ?_⟩
  · rw [hlater, happlied, List.append_assoc]
  · intro entry hentry
    exact (List.mem_append.mp hentry).elim (hsofar entry) (hothers entry)

/-- A project with an EDITOR beside its owner. -/
def editorAndOwner : Table := ⟨[⟨"u1", .EDITOR⟩, ⟨"u2", .OWNER⟩], by decide⟩

/-- That project with one document. -/
def site : Site := .init "project" ["file"] Members.twoUsers editorAndOwner

/-- The editor is demoted while both have the document open. -/
def demoteWhileOpen : List Event :=
  [.connect ("file", 0) "u1" [], .readAccess ("file", 0), .authorize ("file", 0),
    .rooms "file" (.create 0 true), .rooms "file" (.resumeJoin 0), .enter ("file", 0),
    .connect ("file", 1) "u2" [], .readAccess ("file", 1), .authorize ("file", 1),
    .rooms "file" (.resumeJoin 1), .enter ("file", 1),
    .members (.changeMemberRole "u1" .VIEWER), .members (.statement 0), .members (.statement 0)]

/-- The editor is demoted between the read of its row and `joinRoom`. -/
def demoteWhileJoining : List Event :=
  [.connect ("file", 0) "u1" [], .readAccess ("file", 0),
    .members (.changeMemberRole "u1" .VIEWER), .members (.statement 0), .members (.statement 0)]

/-- The rest of the handshake, and a frame. -/
def joinAndWrite : List Event :=
  [.authorize ("file", 0), .rooms "file" (.create 0 true), .rooms "file" (.resumeJoin 0),
    .enter ("file", 0), .message ("file", 0) (.update [1])]

/-- The site after these events. -/
def reached (events : List Event) : Site := (run (step true) site events).getD site

/-- The owner goes on writing after the editor is demoted. -/
theorem revocation_complete_owner_writes :
    AppliedWithout "u1" (reached (demoteWhileOpen ++ [.listRooms 0, .walk 0]))
      (reached (demoteWhileOpen ++
        [.listRooms 0, .walk 0, .message ("file", 1) (.update [1])])) := by
  refine revocation_complete true "project" ["file"] Members.twoUsers editorAndOwner
    demoteWhileOpen [.listRooms 0, .walk 0] [.message ("file", 1) (.update [1])]
    (reached demoteWhileOpen) _ _ 0 "u1" _ rfl rfl rfl rfl rfl ?_ ?_
  · exact (meets_cons rfl).mpr ⟨rfl, (meets_cons rfl).mpr ⟨rfl, (meets_cons rfl).mpr
      ⟨rfl, trivial⟩⟩⟩
  · refine (meets_cons rfl).mpr ⟨trivial, (meets_cons rfl).mpr ⟨?_, (meets_cons rfl).mpr
      ⟨?_, trivial⟩⟩⟩
    · rintro userId result rooms ⟨⟩ ⟨⟩ - ref socket hsocket huser - -
      have hrun : run (step true) site demoteWhileOpen = some (reached demoteWhileOpen) := rfl
      rcases connected_run (known_init "project" ["file"] Members.twoUsers editorAndOwner) hrun
        hsocket with ⟨early, hmem⟩ | ⟨first, hfirst, -⟩
      · obtain ⟨rfl, -⟩ : ref = ("file", 0) ∧ early = [] := by
          simpa [demoteWhileOpen, huser] using hmem
        exact ⟨("file", 0), List.mem_cons_self, rfl, Or.inr rfl⟩
      · cases hfirst
    · rintro socket r ⟨⟩ - hclosing
      cases hclosing

/-- What a run owes in which the first call takes EDITOR rights away from `u1`. -/
def RevokedOn (before after : List Event) : Prop :=
  ∀ s₁ s₂ s₃ result, run (step true) site before = some s₁ →
    s₁.membership.calls[0]? = some (.disconnecting "u1" result) →
    run (step true) s₁ [.listRooms 0, .walk 0] = some s₂ →
    s₂.membership.calls[0]? = some (.resolved result) →
    run (step true) s₂ after = some s₃ →
    Meets (step true) (fun s _ => editor s "u1" = false) s₁ ([.listRooms 0, .walk 0] ++ after) →
    AppliedWithout "u1" s₂ s₃

/-- The two ways around a walk: a handshake under way when the user is demoted
leads to a socket that goes on writing, and a frame behind the server's close is
still applied. -/
theorem demoted_user_writes :
    ¬ RevokedOn demoteWhileJoining joinAndWrite ∧
      ¬ RevokedOn demoteWhileOpen [.message ("file", 0) (.update [1])] := by
  constructor
  · intro hall
    obtain ⟨later, happlied, hothers⟩ := hall (reached demoteWhileJoining) _ _ _ rfl rfl rfl rfl rfl
      ((meets_cons rfl).mpr ⟨rfl, (meets_cons rfl).mpr ⟨rfl, (meets_cons rfl).mpr ⟨rfl,
        (meets_cons rfl).mpr ⟨rfl, (meets_cons rfl).mpr ⟨rfl, (meets_cons rfl).mpr ⟨rfl,
          (meets_cons rfl).mpr ⟨rfl, trivial⟩⟩⟩⟩⟩⟩⟩)
    have hlater : later = [⟨("file", 0), "u1", .update [1]⟩] := happlied.symm
    exact hothers _ (hlater ▸ List.mem_cons_self) rfl
  · intro hall
    obtain ⟨later, happlied, hothers⟩ := hall (reached demoteWhileOpen) _ _ _ rfl rfl rfl rfl rfl
      ((meets_cons rfl).mpr ⟨rfl, (meets_cons rfl).mpr ⟨rfl, (meets_cons rfl).mpr
        ⟨rfl, trivial⟩⟩⟩)
    have hlater : later = [⟨("file", 0), "u1", .update [1]⟩] := happlied.symm
    exact hothers _ (hlater ▸ List.mem_cons_self) rfl

end CollabIDE.Collab.Sockets
