import CollabIDE.Collab.Frames
import CollabIDE.Lib.Varint
/-!
# What a VIEWER cannot do

The run of a document without the frames of one VIEWER has the same documents,
the same updates broadcast and published, and the same buffers and stored tables,
as long as the awareness is written for the others where it is written without
them.  A VIEWER may put a state there that cannot be written, and then the next
greeting ends the process.
-/

namespace CollabIDE.Collab.Viewers

open CollabIDE.Lib.Machine CollabIDE.Auth.Authorize CollabIDE.Projects.MemberTable
open CollabIDE.Shared.Protocol CollabIDE.Collab.Rooms CollabIDE.Collab.Frames
open CollabIDE.Persistence CollabIDE.Persistence.Buffer

variable {Y A : Type}

/-- `readSyncMessage` reads one integer for the type, and only a step 2 and an
update change the document. -/
def ReadsMessageType (P : Protocols Y A) : Prop :=
  ∀ ydoc bytes messageType rest, P.readVarUint bytes = some (messageType, rest) →
    messageType ≠ messageYjsSyncStep2 → messageType ≠ messageYjsUpdate →
    (P.readSyncMessage ydoc bytes).ydoc = ydoc ∧ (P.readSyncMessage ydoc bytes).updates = []

/-! ## Where the awareness is written -/

section Throws

variable (P : Protocols Y A)

/-- What `handleMessage` hands to `applyAwarenessUpdate`. -/
def awarenessPayload (data : Bytes) : Option Bytes :=
  match P.readVarUint data with
  | some (messageType, rest) =>
    if messageType = MessageType.Awareness then (P.readVarUint8Array rest).map Prod.fst else none
  | none => none

def frameThrows (awareness : A) (c : ConnId) (data : Bytes) : Bool :=
  (awarenessPayload P data).any fun payload => applyThrows P awareness payload c

/-- The awareness after a frame. -/
def afterFrame (awareness : A) (c : ConnId) (data : Bytes) : A :=
  match awarenessPayload P data with
  | some payload => (P.applyAwarenessUpdate awareness payload (some c)).awareness
  | none => awareness

/-- Frames handled one after another throw on both sides or on neither. -/
def QueuedAlike (c : ConnId) : A → A → List Bytes → Prop
  | _, _, [] => True
  | a, b, data :: queued =>
    frameThrows P a c data = frameThrows P b c data ∧
      QueuedAlike c (afterFrame P a c data) (afterFrame P b c data) queued

instance decidableQueuedAlike (c : ConnId) :
    ∀ (a b : A) (queued : List Bytes), Decidable (QueuedAlike P c a b queued)
  | _, _, [] => isTrue trivial
  | a, b, data :: queued =>
    have := decidableQueuedAlike c (afterFrame P a c data) (afterFrame P b c data) queued
    inferInstanceAs (Decidable (_ ∧ _))

/-- A greeting, a frame of another socket, a close and a tick of the timer throw
on both sides or on neither. -/
def ThrowsAlike (v : ConnId) (s t : State Y A) : Event Y → Prop
  | .enter c =>
    match s.doc.conn c with
    | .joined r =>
      greetThrows P (s.awareness r) = greetThrows P (t.awareness r) ∧
        (c = v ∨ QueuedAlike P c (s.awareness r) (t.awareness r) (s.socket c).queued)
    | _ => True
  | .frame c data =>
    match s.doc.conn c with
    | .inside r => frameThrows P (s.awareness r) c data = frameThrows P (t.awareness r) c data
    | _ => True
  | .close c =>
    match s.doc.conn c with
    | .inside r => removeThrows P (s.awareness r) c = removeThrows P (t.awareness r) c
    | _ => True
  | .tick r => timerThrows P (s.awareness r) = timerThrows P (t.awareness r)
  | _ => True

instance (v : ConnId) (s t : State Y A) (e : Event Y) : Decidable (ThrowsAlike P v s t e) := by
  unfold ThrowsAlike
  split
  · split <;> infer_instance
  · split <;> infer_instance
  · split <;> infer_instance
  · infer_instance
  · infer_instance

end Throws

/-! ## Two runs that agree -/

/-- The sync messages among those sent or published. -/
def syncs (messages : List Message) : List Message := messages.filter Message.isSync

@[simp] theorem syncs_append_awareness (messages : List Message) (payload : Bytes) :
    syncs (messages ++ [.awareness payload]) = syncs messages := by
  simp [syncs, Message.isSync]

/-- The same socket, up to what a VIEWER's frames leave in it. -/
structure SameViewer (a b : Socket) : Prop where
  phase : a.phase = b.phase
  closed : a.closed = b.closed
  readOnly : a.canWrite = false
  readOnly' : b.canWrite = false

/-- Two states that differ in the awareness, in the VIEWER's socket and in what
it was sent only. -/
structure Agree (v : ConnId) (s t : State Y A) : Prop where
  doc : s.doc = t.doc
  work : s.work = t.work
  store : s.store = t.store
  socket : ∀ c, c ≠ v → s.socket c = t.socket c
  viewer : SameViewer (s.socket v) (t.socket v)
  sent : ∀ c, c ≠ v → syncs (s.sent c) = syncs (t.sent c)
  published : syncs s.published = syncs t.published
  ended : s.ended = t.ended

variable {v : ConnId} {s t : State Y A}

theorem Agree.symm (h : Agree v s t) : Agree v t s where
  doc := h.doc.symm
  work := h.work.symm
  store := h.store.symm
  socket := fun c hc => (h.socket c hc).symm
  viewer := ⟨h.viewer.phase.symm, h.viewer.closed.symm, h.viewer.readOnly', h.viewer.readOnly⟩
  sent := fun c hc => (h.sent c hc).symm
  published := h.published.symm
  ended := h.ended.symm

theorem Agree.phase (h : Agree v s t) (c : ConnId) :
    (s.socket c).phase = (t.socket c).phase := by
  by_cases hc : c = v
  · rw [hc]
    exact h.viewer.phase
  · rw [h.socket c hc]

theorem Agree.hears (h : Agree v s t) (c : ConnId) :
    (s.socket c).hears ↔ (t.socket c).hears := by
  have hclosed : (s.socket c).closed = (t.socket c).closed := by
    by_cases hc : c = v
    · rw [hc]
      exact h.viewer.closed
    · rw [h.socket c hc]
  rw [Socket.hears, Socket.hears, h.phase c, hclosed]

/-! ## What is done to both sides -/

theorem Agree.setDoc (h : Agree v s t) (doc : Doc) : Agree v { s with doc } { t with doc } :=
  ⟨rfl, h.work, h.store, h.socket, h.viewer, h.sent, h.published, h.ended⟩

theorem Agree.setWork (h : Agree v s t) (r : RoomId) (work : Work Y) :
    Agree v (s.setWork r work) (t.setWork r work) where
  doc := h.doc
  work := by simp only [State.setWork, h.work]
  store := h.store
  socket := h.socket
  viewer := h.viewer
  sent := h.sent
  published := h.published
  ended := h.ended

theorem Agree.setSocket (h : Agree v s t) (c : ConnId) (f : Socket → Socket)
    (hviewer : c = v → ∀ a b, SameViewer a b → SameViewer (f a) (f b)) :
    Agree v (s.setSocket c (f (s.socket c))) (t.setSocket c (f (t.socket c))) where
  doc := h.doc
  work := h.work
  store := h.store
  socket := by
    intro other hother
    by_cases hc : other = c
    · subst hc
      simp only [State.setSocket, Function.update_self, h.socket other hother]
    · simp only [State.setSocket, Function.update_of_ne hc, h.socket other hother]
  viewer := by
    by_cases hc : v = c
    · subst hc
      simp only [State.setSocket, Function.update_self]
      exact hviewer rfl _ _ h.viewer
    · simp only [State.setSocket, Function.update_of_ne hc]
      exact h.viewer
  sent := h.sent
  published := h.published
  ended := h.ended

theorem Agree.reject (h : Agree v s t) (c : ConnId) : Agree v (reject s c) (reject t c) :=
  h.setSocket c (fun socket => { socket with isOpen := false })
    fun _ _ _ hs => ⟨hs.phase, hs.closed, hs.readOnly, hs.readOnly'⟩

theorem Agree.setSent (h : Agree v s t) {sent sent' : ConnId → List Message}
    (hsent : ∀ c, c ≠ v → syncs (sent c) = syncs (sent' c)) :
    Agree v { s with sent } { t with sent := sent' } :=
  ⟨h.doc, h.work, h.store, h.socket, h.viewer, hsent, h.published, h.ended⟩

theorem syncs_append_congr {a b : List Message} (h : syncs a = syncs b) (message : Message) :
    syncs (a ++ [message]) = syncs (b ++ [message]) := by
  rw [syncs, List.filter_append, ← syncs, h, syncs, syncs, List.filter_append]

theorem Agree.send (h : Agree v s t) {c : ConnId} (hc : c ≠ v) (message : Message) :
    Agree v (send s c message) (send t c message) := by
  unfold Frames.send
  rw [h.socket c hc]
  split
  · refine h.setSent fun other hother => ?_
    by_cases heq : other = c
    · subst heq
      simp only [Function.update_self]
      exact syncs_append_congr (h.sent other hother) message
    · simp only [Function.update_of_ne heq, h.sent other hother]
  · exact h

theorem Agree.broadcast (h : Agree v s t) (r : RoomId) (message : Message) (origin : Origin) :
    Agree v (broadcast s r message origin) (broadcast t r message origin) := by
  refine h.setSent fun peer hpeer => ?_
  simp only [h.doc, h.socket peer hpeer]
  split
  · exact syncs_append_congr (h.sent peer hpeer) message
  · exact h.sent peer hpeer

section Observers

variable {P : Protocols Y A} {docBusEnabled : Bool}

theorem Agree.publishDoc (h : Agree v s t) (frame : Message) (origin : Origin) :
    Agree v (publishDoc docBusEnabled s frame origin)
      (publishDoc docBusEnabled t frame origin) := by
  unfold Frames.publishDoc
  split
  · exact ⟨h.doc, h.work, h.store, h.socket, h.viewer, h.sent,
      syncs_append_congr h.published frame, h.ended⟩
  · exact h

theorem Agree.onUpdate (h : Agree v s t) (r : RoomId) (origin : Origin) (update : Bytes) :
    Agree v (onUpdate P docBusEnabled s r origin update)
      (onUpdate P docBusEnabled t r origin update) := by
  unfold Frames.onUpdate
  rw [h.work]
  exact ((h.setWork r _).broadcast r _ origin).publishDoc _ origin

theorem Agree.transact (h : Agree v s t) (r : RoomId) (origin : Origin) (ydoc : Y)
    (updates : List Bytes) :
    Agree v (transact P docBusEnabled s r origin ydoc updates)
      (transact P docBusEnabled t r origin ydoc updates) := by
  have hfold : ∀ s t : State Y A, Agree v s t →
      Agree v (updates.foldl (fun s update => Frames.onUpdate P docBusEnabled s r origin update) s)
        (updates.foldl (fun s update => Frames.onUpdate P docBusEnabled s r origin update) t) := by
    induction updates with
    | nil => exact fun _ _ h => h
    | cons update updates ih => exact fun s t h => ih _ _ (h.onUpdate r origin update)
  unfold Frames.transact
  rw [h.work]
  exact hfold _ _ (h.setWork r _)

theorem Agree.handleSync (h : Agree v s t) (r : RoomId) {c : ConnId} (hc : c ≠ v)
    (rest : Bytes) :
    Agree v (handleSync P docBusEnabled s r c rest) (handleSync P docBusEnabled t r c rest) := by
  unfold Frames.handleSync
  rw [h.work]
  have htransact : ∀ ydoc updates,
      Agree v (Frames.transact P docBusEnabled s r (.conn c) ydoc updates)
        (Frames.transact P docBusEnabled t r (.conn c) ydoc updates) :=
    h.transact r (.conn c)
  dsimp only
  split
  · exact (htransact _ _).reject c
  · split
    · exact (htransact _ _).send hc _
    · exact htransact _ _

/-! ## What is done to one side -/

theorem Agree.setAwareness (h : Agree v s t) (r : RoomId) (awareness : A) :
    Agree v (s.setAwareness r awareness) t :=
  ⟨h.doc, h.work, h.store, h.socket, h.viewer, h.sent, h.published, h.ended⟩

theorem Agree.onAwareness (h : Agree v s t) (r : RoomId) (origin : Origin) (awareness : A)
    (changed : Option (List Nat)) :
    Agree v (onAwareness P docBusEnabled s r origin awareness changed) t := by
  have hset := h.setAwareness r awareness
  unfold Frames.onAwareness
  dsimp only
  cases changed.bind (P.encodeAwarenessUpdate awareness) with
  | none => exact hset
  | some payload =>
      have hbroadcast : Agree v (Frames.broadcast (s.setAwareness r awareness) r
          (.awareness payload) origin) t := by
        refine hset.setSent fun peer hpeer => ?_
        split
        · rw [syncs_append_awareness]
          exact hset.sent peer hpeer
        · exact hset.sent peer hpeer
      dsimp only
      unfold Frames.publishDoc
      split
      · exact ⟨hbroadcast.doc, hbroadcast.work, hbroadcast.store, hbroadcast.socket,
          hbroadcast.viewer, hbroadcast.sent,
          (syncs_append_awareness _ payload).trans hbroadcast.published, hbroadcast.ended⟩
      · exact hbroadcast

theorem Agree.onAwareness₂ (h : Agree v s t) (r : RoomId) (origin : Origin)
    (awareness awareness' : A) (changed changed' : Option (List Nat)) :
    Agree v (Frames.onAwareness P docBusEnabled s r origin awareness changed)
      (Frames.onAwareness P docBusEnabled t r origin awareness' changed') :=
  ((h.onAwareness r origin awareness changed).symm.onAwareness r origin awareness' changed').symm

theorem Agree.setViewer (h : Agree v s t) {socket : Socket}
    (hsocket : SameViewer socket (t.socket v)) : Agree v (s.setSocket v socket) t where
  doc := h.doc
  work := h.work
  store := h.store
  socket := fun c hc => (Function.update_of_ne hc _ _).trans (h.socket c hc)
  viewer := by
    simp only [State.setSocket, Function.update_self]
    exact hsocket
  sent := h.sent
  published := h.published
  ended := h.ended

theorem Agree.rejectViewer (h : Agree v s t) : Agree v (Frames.reject s v) t :=
  h.setViewer ⟨h.viewer.phase, h.viewer.closed, h.viewer.readOnly, h.viewer.readOnly'⟩

theorem Agree.sendViewer (h : Agree v s t) (message : Message) :
    Agree v (Frames.send s v message) t := by
  unfold Frames.send
  split
  · exact h.setSent fun c hc => by rw [Function.update_of_ne hc, h.sent c hc]
  · exact h

/-! ## Messages -/

theorem Agree.handleAwareness (h : Agree v s t) (r : RoomId) (c : ConnId) (payload : Bytes)
    (hthrows : applyThrows P (s.awareness r) payload c = applyThrows P (t.awareness r) payload c) :
    Agree v (handleAwareness P docBusEnabled s r c payload)
      (handleAwareness P docBusEnabled t r c payload) := by
  unfold Frames.handleAwareness
  dsimp only
  rw [hthrows]
  split
  · exact (h.onAwareness₂ r _ _ _ _ _).reject c
  · exact h.onAwareness₂ r _ _ _ _ _

theorem Agree.handleMessage (h : Agree v s t) (r : RoomId) {c : ConnId} (hc : c ≠ v)
    (data : Bytes)
    (hthrows : frameThrows P (s.awareness r) c data = frameThrows P (t.awareness r) c data) :
    Agree v (handleMessage P docBusEnabled s r c data)
      (handleMessage P docBusEnabled t r c data) := by
  unfold frameThrows awarenessPayload at hthrows
  unfold Frames.handleMessage
  rw [h.socket c hc]
  cases hread : P.readVarUint data with
  | none => exact h.reject c
  | some read =>
      obtain ⟨messageType, rest⟩ := read
      rw [hread] at hthrows
      dsimp only at hthrows ⊢
      split
      · split
        · exact h.handleSync r hc rest
        · cases isSyncStep1 P data with
          | none => exact h.reject c
          | some peeked =>
              cases peeked with
              | true => exact h.handleSync r hc rest
              | false => exact h
      · split
        next hawareness =>
          rw [if_pos hawareness] at hthrows
          cases hpayload : P.readVarUint8Array rest with
          | none => exact h.reject c
          | some read =>
              simp only [hpayload, Option.map_some, Option.any_some] at hthrows
              exact h.handleAwareness r c read.1 hthrows
        next => exact h.reject c

/-! ## The VIEWER's own frames -/

theorem transact_unchanged (s : State Y A) (r : RoomId) (origin : Origin) :
    transact P docBusEnabled s r origin (s.work r).ydoc [] = s := by
  simp [transact, State.setWork]

/-- What the peek takes for a step 1 is dispatched as one. -/
theorem readVarUint_of_isSyncStep1 {data rest : Bytes} {messageType : Nat}
    (hread : P.readVarUint data = some (messageType, rest))
    (h : isSyncStep1 P data = some true) :
    ∃ after, P.readVarUint rest = some (messageYjsSyncStep1, after) := by
  simp only [isSyncStep1, hread, Option.map_eq_some_iff, decide_eq_true_eq] at h
  obtain ⟨⟨subtype, after⟩, hafter, hsubtype⟩ := h
  exact ⟨after, by rw [hafter, ← hsubtype]⟩

/-- A step 1 of the VIEWER is answered, and that is all. -/
theorem Agree.handleStep1 (hsync : ReadsMessageType P) (h : Agree v s t) (r : RoomId)
    {rest after : Bytes} (hrest : P.readVarUint rest = some (messageYjsSyncStep1, after)) :
    Agree v (Frames.handleSync P docBusEnabled s r v rest) t := by
  obtain ⟨hydoc, hupdates⟩ := hsync (s.work r).ydoc rest _ _ hrest (by decide) (by decide)
  unfold Frames.handleSync
  dsimp only
  rw [hydoc, hupdates, transact_unchanged]
  split
  · exact h.rejectViewer
  · split
    · exact h.sendViewer _
    · exact h

theorem Agree.handleViewer (hsync : ReadsMessageType P) (h : Agree v s t) (r : RoomId)
    (data : Bytes) : Agree v (Frames.handleMessage P docBusEnabled s r v data) t := by
  unfold Frames.handleMessage
  cases hread : P.readVarUint data with
  | none => exact h.rejectViewer
  | some read =>
      obtain ⟨messageType, rest⟩ := read
      simp only [h.viewer.readOnly, Bool.false_eq_true, if_false]
      split
      · cases hpeek : isSyncStep1 P data with
        | none => exact h.rejectViewer
        | some peeked =>
            cases peeked with
            | true =>
                obtain ⟨after, hafter⟩ := readVarUint_of_isSyncStep1 hread hpeek
                exact h.handleStep1 hsync r hafter
            | false => exact h
      · split
        · cases P.readVarUint8Array rest with
          | none => exact h.rejectViewer
          | some read =>
              have haware : Agree v (Frames.onAwareness P docBusEnabled s r (.conn v)
                  (P.applyAwarenessUpdate (s.awareness r) read.1 (some v)).awareness
                  (P.applyAwarenessUpdate (s.awareness r) read.1 (some v)).changed) t :=
                h.onAwareness r _ _ _
              dsimp only [Frames.handleAwareness]
              split
              · exact haware.rejectViewer
              · exact haware
        · exact h.rejectViewer

theorem Agree.onMessageViewer (hsync : ReadsMessageType P) (h : Agree v s t) (data : Bytes) :
    Agree v (onMessage P docBusEnabled s v data) t := by
  unfold onMessage
  split
  · exact h.handleViewer hsync _ data
  · exact h.setViewer ⟨h.viewer.phase, h.viewer.closed, h.viewer.readOnly, h.viewer.readOnly'⟩

theorem Agree.onMessage (h : Agree v s t) {c : ConnId} (hc : c ≠ v) (data : Bytes)
    (hthrows : ThrowsAlike P v s t (.frame c data)) :
    Agree v (onMessage P docBusEnabled s c data) (onMessage P docBusEnabled t c data) := by
  dsimp only [ThrowsAlike] at hthrows
  unfold Frames.onMessage
  rw [h.doc] at hthrows ⊢
  cases hconn : t.doc.conn c with
  | inside r =>
      rw [hconn] at hthrows
      exact h.handleMessage r hc data hthrows
  | _ =>
      exact h.setSocket c (fun socket => { socket with queued := socket.queued ++ [data] })
        fun hcv => absurd hcv hc

/-! ## What a frame does to the awareness -/

theorem awareness_transact (s : State Y A) (r : RoomId) (origin : Origin) (ydoc : Y)
    (updates : List Bytes) :
    (transact P docBusEnabled s r origin ydoc updates).awareness = s.awareness := by
  have hfold : ∀ s : State Y A, (updates.foldl
      (fun s update => Frames.onUpdate P docBusEnabled s r origin update) s).awareness =
        s.awareness := by
    induction updates with
    | nil => exact fun _ => rfl
    | cons update updates ih =>
        intro s
        rw [List.foldl_cons, ih]
        unfold Frames.onUpdate Frames.publishDoc
        dsimp only
        split <;> rfl
  exact hfold _

theorem awareness_send (s : State Y A) (c : ConnId) (message : Message) :
    (send s c message).awareness = s.awareness := by
  unfold Frames.send
  split <;> rfl

theorem awareness_handleSync (s : State Y A) (r : RoomId) (c : ConnId) (rest : Bytes) :
    (handleSync P docBusEnabled s r c rest).awareness = s.awareness := by
  unfold Frames.handleSync
  dsimp only
  split
  · exact awareness_transact s r _ _ _
  · split
    · rw [awareness_send, awareness_transact]
    · exact awareness_transact s r _ _ _

theorem awareness_onAwareness (s : State Y A) (r : RoomId) (origin : Origin) (awareness : A)
    (changed : Option (List Nat)) :
    (onAwareness P docBusEnabled s r origin awareness changed).awareness r = awareness := by
  unfold Frames.onAwareness Frames.publishDoc
  dsimp only
  split
  · split <;> exact Function.update_self _ _ _
  · exact Function.update_self _ _ _

theorem awareness_handleMessage (s : State Y A) (r : RoomId) (c : ConnId) (data : Bytes) :
    (handleMessage P docBusEnabled s r c data).awareness r =
      afterFrame P (s.awareness r) c data := by
  unfold Frames.handleMessage afterFrame awarenessPayload
  cases P.readVarUint data with
  | none => rfl
  | some read =>
      obtain ⟨messageType, rest⟩ := read
      dsimp only
      split
      next hsync =>
        have htype : messageType ≠ MessageType.Awareness := by
          rw [hsync]
          decide
        rw [if_neg htype]
        cases (s.socket c).canWrite with
        | true =>
            rw [if_pos rfl, awareness_handleSync]
        | false =>
            rw [if_neg Bool.false_ne_true]
            cases isSyncStep1 P data with
            | none => rfl
            | some peeked =>
                cases peeked with
                | true => exact congrFun (awareness_handleSync s r c rest) r
                | false => rfl
      next =>
        split
        · cases P.readVarUint8Array rest with
          | none => rfl
          | some read =>
              dsimp only [Frames.handleAwareness, Option.map_some]
              split
              · exact awareness_onAwareness s r _ _ _
              · exact awareness_onAwareness s r _ _ _
        · rfl

/-! ## Entering a room -/

theorem Agree.sendAwareness (h : Agree v s t) (c : ConnId) (payload : Bytes) :
    Agree v (Frames.send s c (.awareness payload)) t := by
  unfold Frames.send
  split
  · refine h.setSent fun other hother => ?_
    by_cases heq : other = c
    · subst heq
      rw [Function.update_self, syncs_append_awareness, h.sent other hother]
    · rw [Function.update_of_ne heq, h.sent other hother]
  · exact h

theorem socket_send (s : State Y A) (c : ConnId) (message : Message) :
    (send s c message).socket = s.socket := by
  unfold Frames.send
  split <;> rfl

theorem greet_cases (s : State Y A) (r : RoomId) (c : ConnId) :
    let greeted := send s c (.sync (P.writeSyncStep1 (s.work r).ydoc))
    (greetThrows P (s.awareness r) = true ∧ greet P s r c = { greeted with ended := true }) ∨
      (greetThrows P (s.awareness r) = false ∧
        (greet P s r c = greeted ∨
          ∃ payload, greet P s r c = send greeted c (.awareness payload))) := by
  unfold Frames.greet greetThrows
  dsimp only
  cases (P.getStates (s.awareness r)).isEmpty with
  | true => exact .inr ⟨rfl, .inl rfl⟩
  | false =>
      cases P.encodeAwarenessUpdate (s.awareness r) (P.getStates (s.awareness r)) with
      | none => exact .inl ⟨rfl, rfl⟩
      | some payload => exact .inr ⟨rfl, .inr ⟨payload, rfl⟩⟩

theorem awareness_greet (s : State Y A) (r : RoomId) (c : ConnId) :
    (greet P s r c).awareness = s.awareness := by
  obtain ⟨-, h⟩ | ⟨-, h | ⟨payload, h⟩⟩ := greet_cases (P := P) s r c
  · rw [h, awareness_send]
  · rw [h, awareness_send]
  · rw [h, awareness_send, awareness_send]

theorem Agree.setEnded (h : Agree v s t) (ended : Bool) :
    Agree v { s with ended } { t with ended } :=
  ⟨h.doc, h.work, h.store, h.socket, h.viewer, h.sent, h.published, rfl⟩

theorem Agree.greet (h : Agree v s t) (r : RoomId) (c : ConnId)
    (hthrows : greetThrows P (s.awareness r) = greetThrows P (t.awareness r)) :
    Agree v (greet P s r c) (greet P t r c) := by
  have hstep1 : Agree v (Frames.send s c (.sync (P.writeSyncStep1 (s.work r).ydoc)))
      (Frames.send t c (.sync (P.writeSyncStep1 (t.work r).ydoc))) := by
    rw [← h.work]
    by_cases hc : c = v
    · subst hc
      exact ((h.sendViewer _).symm.sendViewer _).symm
    · exact h.send hc _
  obtain ⟨hs, heq⟩ | ⟨hs, hsent⟩ := greet_cases (P := P) s r c
  · obtain ⟨-, heq'⟩ | ⟨ht, -⟩ := greet_cases (P := P) t r c
    · rw [heq, heq']
      exact hstep1.setEnded true
    · rw [hthrows, ht] at hs
      exact absurd hs Bool.false_ne_true
  · obtain ⟨ht, -⟩ | ⟨-, hsent'⟩ := greet_cases (P := P) t r c
    · rw [← hthrows, hs] at ht
      exact absurd ht Bool.false_ne_true
    · have hleft : Agree v (Frames.greet P s r c)
          (Frames.send t c (.sync (P.writeSyncStep1 (t.work r).ydoc))) := by
        obtain heq | ⟨payload, heq⟩ := hsent
        · rwa [heq]
        · rw [heq]
          exact hstep1.sendAwareness c payload
      obtain heq | ⟨payload, heq⟩ := hsent'
      · rwa [heq]
      · rw [heq]
        exact (hleft.symm.sendAwareness c payload).symm

variable (docBusEnabled) in
theorem Agree.handleQueuedViewer (hsync : ReadsMessageType P) (r : RoomId)
    (queued : List Bytes) (h : Agree v s t) :
    Agree v (handleQueued P docBusEnabled s r v queued) t := by
  induction queued generalizing s with
  | nil => exact h
  | cons data queued ih => exact ih (h.handleViewer hsync r data)

theorem Agree.handleQueued (r : RoomId) {c : ConnId} (hc : c ≠ v) (queued : List Bytes)
    (h : Agree v s t) (halike : QueuedAlike P c (s.awareness r) (t.awareness r) queued) :
    Agree v (handleQueued P docBusEnabled s r c queued)
      (handleQueued P docBusEnabled t r c queued) := by
  induction queued generalizing s t with
  | nil => exact h
  | cons data queued ih =>
      refine ih (h.handleMessage r hc data halike.1) ?_
      rw [awareness_handleMessage, awareness_handleMessage]
      exact halike.2

theorem Agree.enter (hsync : ReadsMessageType P) (h : Agree v s t) (r : RoomId) (c : ConnId)
    (hthrows : greetThrows P (s.awareness r) = greetThrows P (t.awareness r))
    (halike : c = v ∨ QueuedAlike P c (s.awareness r) (t.awareness r) (s.socket c).queued) :
    Agree v (enter P docBusEnabled s r c) (enter P docBusEnabled t r c) := by
  have hgreet : Agree v (Frames.greet P s r c) (Frames.greet P t r c) := h.greet r c hthrows
  unfold Frames.enter
  dsimp only
  rw [hgreet.ended]
  split
  · exact hgreet
  · have hset := hgreet.setSocket c (fun socket => { socket with queued := [] })
      fun _ _ _ hs => ⟨hs.phase, hs.closed, hs.readOnly, hs.readOnly'⟩
    by_cases hc : c = v
    · subst hc
      have hleft := hset.handleQueuedViewer docBusEnabled hsync r
        ((Frames.greet P s r c).socket c).queued
      exact (hleft.symm.handleQueuedViewer docBusEnabled hsync r _).symm
    · have hqueued : ((Frames.greet P s r c).socket c).queued = (s.socket c).queued := by
        obtain ⟨-, heq⟩ | ⟨-, heq | ⟨payload, heq⟩⟩ := greet_cases (P := P) s r c
        · rw [heq, socket_send]
        · rw [heq, socket_send]
        · rw [heq, socket_send, socket_send]
      have hqueued' : ((Frames.greet P t r c).socket c).queued = (s.socket c).queued := by
        rw [← hgreet.socket c hc, hqueued]
      rw [hqueued, hqueued']
      refine Agree.handleQueued r hc _ hset ?_
      have hboth := halike.resolve_left hc
      rwa [State.setSocket, State.setSocket, awareness_greet, awareness_greet]

end Observers

/-! ## Runs -/

variable {P : Protocols Y A} {docBusEnabled : Bool} {docId : String}

/-- The binary frames of the VIEWER. -/
def isFrameOf (v : ConnId) : Event Y → Bool
  | .frame c _ => c = v
  | _ => false

/-- The membership read gives the VIEWER no role that writes. -/
def ReadsOnly (v : ConnId) : Event Y → Prop
  | .authorize c (some role) => c = v → hasRole role .EDITOR = false
  | _ => True

theorem agree_hidden {s' : State Y A} {e : Event Y} (hsync : ReadsMessageType P)
    (he : isFrameOf v e = true) (h : Agree v s t)
    (hstep : Frames.step P docBusEnabled docId s e = some s') : Agree v s' t := by
  unfold Frames.step at hstep
  split at hstep
  · cases hstep
    exact h
  · cases e with
    | frame c data =>
        obtain rfl : c = v := by simpa [isFrameOf] using he
        simp only [turn, Option.ite_none_right_eq_some, Option.some.injEq] at hstep
        rw [← hstep.2]
        exact h.onMessageViewer hsync data
    | _ => simp [isFrameOf] at he

theorem Agree.stepDoc {s' : State Y A} {e : Rooms.Event} (h : Agree v s t)
    (hstep : stepDoc docBusEnabled s e = some s') :
    ∃ t', stepDoc docBusEnabled t e = some t' ∧ Agree v s' t' := by
  obtain ⟨doc, hdoc, rfl⟩ := Option.map_eq_some_iff.mp hstep
  exact ⟨_, Option.map_eq_some_iff.mpr ⟨doc, h.doc ▸ hdoc, rfl⟩, h.setDoc doc⟩

theorem Agree.onClose {s' : State Y A} {c : ConnId} (h : Agree v s t)
    (hthrows : ThrowsAlike P v s t (.close c))
    (hclose : onClose P docBusEnabled s c = some s') :
    ∃ t', onClose P docBusEnabled t c = some t' ∧ Agree v s' t' := by
  have hset : Agree v (s.setSocket c { s.socket c with isOpen := false, closed := true })
      (t.setSocket c { t.socket c with isOpen := false, closed := true }) :=
    h.setSocket c (fun socket => { socket with isOpen := false, closed := true })
      fun _ _ _ hs => ⟨hs.phase, rfl, hs.readOnly, hs.readOnly'⟩
  dsimp only [ThrowsAlike] at hthrows
  unfold Frames.onClose at hclose ⊢
  rw [← h.doc]
  cases hconn : s.doc.conn c with
  | inside r =>
      simp only [hconn] at hclose hthrows ⊢
      rw [← hthrows]
      split at hclose
      next hthrow =>
        rw [if_pos hthrow]
        cases hclose
        exact ⟨_, rfl, (hset.onAwareness₂ r .none _ _ _ _).setEnded true⟩
      next hthrow =>
        rw [if_neg hthrow]
        exact (hset.onAwareness₂ r .none _ _ _ _).stepDoc hclose
  | _ =>
      simp only [hconn, Option.some.injEq] at hclose ⊢
      exact ⟨_, rfl, hclose ▸ hset⟩

theorem agree_create {s' : State Y A} {r : RoomId} {loaded : Option Y} (h : Agree v s t)
    (hstep : turn P docBusEnabled docId s (.create r loaded) = some s') :
    ∃ t', turn P docBusEnabled docId t (.create r loaded) = some t' ∧ Agree v s' t' := by
  cases loaded with
  | none => exact h.stepDoc hstep
  | some ydoc =>
      have hset := h.setWork r ⟨ydoc, .fresh, 0⟩
      have hboth := ((hset.setAwareness r P.newAwareness).symm.setAwareness r P.newAwareness).symm
      exact hboth.stepDoc hstep

theorem agree_control {s' : State Y A} {e : Rooms.Event} (h : Agree v s t)
    (hstep : turn P docBusEnabled docId s (.control e) = some s') :
    ∃ t', turn P docBusEnabled docId t (.control e) = some t' ∧ Agree v s' t' := by
  have hturn : mayTurn t e = mayTurn s e := by simp only [mayTurn, h.work]
  have hwork : controlWork t e = controlWork s e := by simp only [controlWork, h.work, h.doc]
  simp only [turn, Option.ite_none_right_eq_some] at hstep ⊢
  rw [hturn, hwork]
  have hboth : Agree v { s with work := controlWork s e } { t with work := controlWork s e } :=
    ⟨h.doc, rfl, h.store, h.socket, h.viewer, h.sent, h.published, h.ended⟩
  obtain ⟨t', ht', hagree⟩ := hboth.stepDoc hstep.2
  exact ⟨t', ⟨hstep.1, ht'⟩, hagree⟩

theorem Agree.applyRemoteFrame (h : Agree v s t) (r : RoomId) (frame : Message) :
    Agree v (applyRemoteFrame P docBusEnabled s r frame)
      (applyRemoteFrame P docBusEnabled t r frame) := by
  cases frame with
  | sync payload =>
      simp only [Frames.applyRemoteFrame, h.work]
      exact h.transact r .bus _ _
  | awareness payload => exact h.onAwareness₂ r .bus _ _ _ _

theorem agree_turn {s' : State Y A} {e : Event Y} (hsync : ReadsMessageType P)
    (he : isFrameOf v e = false) (hfits : ReadsOnly v e) (hthrows : ThrowsAlike P v s t e)
    (h : Agree v s t) (hstep : turn P docBusEnabled docId s e = some s') :
    ∃ t', turn P docBusEnabled docId t e = some t' ∧ Agree v s' t' := by
  cases e with
  | upgrade c =>
      simp only [turn, Option.ite_none_right_eq_some, Option.some.injEq] at hstep ⊢
      rw [← h.phase c]
      refine ⟨_, ⟨hstep.1, rfl⟩, ?_⟩
      rw [← hstep.2]
      exact h.setSocket c (fun _ => ⟨.handshaking, false, true, false, []⟩)
        fun _ _ _ _ => ⟨rfl, rfl, rfl, rfl⟩
  | authenticated c known =>
      simp only [turn, Option.ite_none_right_eq_some] at hstep ⊢
      rw [← h.phase c]
      cases known with
      | true =>
          simp only [if_true, Option.some.injEq] at hstep ⊢
          refine ⟨_, ⟨hstep.1, rfl⟩, ?_⟩
          rw [← hstep.2]
          exact h.setSocket c (fun socket => { socket with phase := .reading })
            fun _ _ _ hs => ⟨rfl, hs.closed, hs.readOnly, hs.readOnly'⟩
      | false =>
          simp only [Bool.false_eq_true, if_false, Option.some.injEq] at hstep ⊢
          refine ⟨_, ⟨hstep.1, rfl⟩, ?_⟩
          rw [← hstep.2]
          exact h.setSocket c (fun socket => { socket with phase := .done, isOpen := false })
            fun _ _ _ hs => ⟨rfl, hs.closed, hs.readOnly, hs.readOnly'⟩
  | authorize c role =>
      simp only [turn, Option.ite_none_right_eq_some] at hstep ⊢
      rw [← h.phase c]
      cases role with
      | some role =>
          have hset := h.setSocket c
            (fun socket => { socket with phase := .done, canWrite := hasRole role .EDITOR })
            fun hc _ _ hs => ⟨rfl, hs.closed, hfits hc, hfits hc⟩
          obtain ⟨t', ht', hagree⟩ := hset.stepDoc hstep.2
          exact ⟨t', ⟨hstep.1, ht'⟩, hagree⟩
      | none =>
          simp only [Option.some.injEq] at hstep ⊢
          refine ⟨_, ⟨hstep.1, rfl⟩, ?_⟩
          rw [← hstep.2]
          exact h.setSocket c (fun socket => { socket with phase := .done, isOpen := false })
            fun _ _ _ hs => ⟨rfl, hs.closed, hs.readOnly, hs.readOnly'⟩
  | enter c =>
      dsimp only [ThrowsAlike] at hthrows
      simp only [turn] at hstep ⊢
      rw [← h.doc]
      cases hconn : s.doc.conn c with
      | joined r =>
          simp only [hconn, Option.map_eq_some_iff] at hstep hthrows ⊢
          obtain ⟨u, hu, rfl⟩ := hstep
          obtain ⟨w, hw, hagree⟩ := h.stepDoc hu
          obtain ⟨d, -, rfl⟩ := Option.map_eq_some_iff.mp hu
          obtain ⟨d', -, rfl⟩ := Option.map_eq_some_iff.mp hw
          exact ⟨_, ⟨_, hw, rfl⟩, hagree.enter hsync r c hthrows.1 hthrows.2⟩
      | refused =>
          simp only [hconn, Option.some.injEq] at hstep ⊢
          exact ⟨_, rfl, hstep ▸ h.reject c⟩
      | _ => simp [hconn] at hstep
  | frame c data =>
      have hc : c ≠ v := by simpa [isFrameOf] using he
      simp only [turn, Option.ite_none_right_eq_some, Option.some.injEq] at hstep ⊢
      exact ⟨_, ⟨(h.hears c).mp hstep.1, rfl⟩, hstep.2 ▸ h.onMessage hc data hthrows⟩
  | reject c =>
      simp only [turn, Option.ite_none_left_eq_some, Option.some.injEq] at hstep ⊢
      rw [← h.phase c]
      exact ⟨_, ⟨hstep.1, rfl⟩, hstep.2 ▸ h.reject c⟩
  | close c =>
      simp only [turn, Option.ite_none_right_eq_some] at hstep ⊢
      obtain ⟨t', ht', hagree⟩ := h.onClose hthrows hstep.2
      exact ⟨t', ⟨(h.hears c).mp hstep.1, ht'⟩, hagree⟩
  | tick r =>
      dsimp only [ThrowsAlike] at hthrows
      simp only [turn, Option.ite_none_right_eq_some, Option.some.injEq] at hstep ⊢
      rw [← h.doc]
      refine ⟨_, ⟨hstep.1, rfl⟩, hstep.2 ▸ ?_⟩
      unfold onTick
      dsimp only
      rw [← hthrows]
      exact (h.onAwareness₂ r .none _ _ _ _).setEnded _
  | remote frame =>
      simp only [turn, Option.map_eq_some_iff] at hstep ⊢
      obtain ⟨r, hr, rfl⟩ := hstep
      exact ⟨_, ⟨r, h.doc ▸ hr, rfl⟩, h.applyRemoteFrame r frame⟩
  | create r loaded => exact agree_create h hstep
  | control e => exact agree_control h hstep
  | timerFires r =>
      simp only [turn, Option.map_eq_some_iff] at hstep ⊢
      obtain ⟨buffer, hbuffer, rfl⟩ := hstep
      rw [← h.work]
      exact ⟨_, ⟨buffer, hbuffer, rfl⟩, h.setWork r _⟩
  | flush r =>
      simp only [turn, Option.ite_none_right_eq_some, Option.some.injEq] at hstep ⊢
      rw [← h.doc, ← h.work]
      exact ⟨_, ⟨hstep.1, rfl⟩, hstep.2 ▸ h.setWork r _⟩
  | write r e =>
      simp only [turn, Option.map_eq_some_iff] at hstep ⊢
      obtain ⟨p, hp, rfl⟩ := hstep
      rw [← h.work, ← h.store]
      have hset := h.setWork r { s.work r with buffer := p.2 }
      exact ⟨_, ⟨p, hp, rfl⟩, hset.doc, hset.work, rfl, hset.socket, hset.viewer, hset.sent,
        hset.published, hset.ended⟩

/-- Every event that is not a frame of the VIEWER happens on both sides. -/
theorem agree_follow {s' : State Y A} {e : Event Y} (hsync : ReadsMessageType P)
    (he : isFrameOf v e = false) (hfits : ReadsOnly v e) (hthrows : ThrowsAlike P v s t e)
    (h : Agree v s t) (hstep : Frames.step P docBusEnabled docId s e = some s') :
    ∃ t', Frames.step P docBusEnabled docId t e = some t' ∧ Agree v s' t' := by
  unfold Frames.step at hstep ⊢
  rw [← h.ended]
  split at hstep
  next hended =>
    rw [if_pos hended]
    cases hstep
    exact ⟨t, rfl, h⟩
  next hended =>
    rw [if_neg hended]
    exact agree_turn hsync he hfits hthrows h hstep

/-- What a VIEWER could have influenced: the documents, the document updates
sent to the others and published, the buffers and the stored tables. -/
structure SameDocument (v : ConnId) (s t : State Y A) : Prop where
  ydoc : ∀ r, (s.work r).ydoc = (t.work r).ydoc
  broadcast : ∀ c, c ≠ v → syncs (s.sent c) = syncs (t.sent c)
  published : syncs s.published = syncs t.published
  buffer : ∀ r, (s.work r).buffer = (t.work r).buffer
  store : s.store = t.store

theorem Agree.sameDocument (h : Agree v s t) : SameDocument v s t where
  ydoc := fun r => by rw [h.work]
  broadcast := h.sent
  published := h.published
  buffer := fun r => by rw [h.work]
  store := h.store

theorem agree_init (v : ConnId) (ydoc : Y) (awareness : A) (store : Store Bytes) :
    Agree v (State.init ydoc awareness store) (State.init ydoc awareness store) :=
  ⟨rfl, rfl, rfl, fun _ _ => rfl, ⟨rfl, rfl, rfl, rfl⟩, fun _ _ => rfl, rfl, rfl⟩

/-- Whatever frames a VIEWER sends, and however they fall among the events of
the others: the run without them has the same document, if writing the awareness
throws in both runs wherever it throws in one. -/
theorem viewer_no_influence (hsync : ReadsMessageType P)
    {ydoc : Y} {awareness : A} {store : Store Bytes} {events : List (Event Y)}
    (hviewer : ∀ e ∈ events, ReadsOnly v e)
    (halike : MeetsErased (Frames.step P docBusEnabled docId) (isFrameOf v) (ThrowsAlike P v)
      (State.init ydoc awareness store) (State.init ydoc awareness store) events)
    (h : run (Frames.step P docBusEnabled docId) (State.init ydoc awareness store) events =
      some s) :
    ∃ t, run (Frames.step P docBusEnabled docId) (State.init ydoc awareness store)
        (events.filter fun e => !isFrameOf v e) = some t ∧ SameDocument v s t := by
  obtain ⟨t, ht, hagree⟩ := run_erase (R := Agree v)
    (fun _ _ _ _ he hR hs => agree_hidden hsync he hR hs)
    (fun _ _ _ _ he hfits hok hR hs => agree_follow hsync he hfits hok hR hs) hviewer halike
    (agree_init v ydoc awareness store) h
  exact ⟨t, ht, hagree.sameDocument⟩

/-! ## A document of whole updates -/

def maxSafeInteger : Nat := 2 ^ 53 - 1

/-- Seven bits a byte, the lowest first. -/
def readVarUintFrom (num mult : Nat) : Bytes → Option (Nat × Bytes)
  | [] => none
  | r :: rest =>
    let num := num + r.toNat % 128 * mult
    if r < 128 then some (num, rest)
    else if maxSafeInteger < num then none
    else readVarUintFrom num (mult * 128) rest

def readVarUint : Bytes → Option (Nat × Bytes) := readVarUintFrom 0 1

def readVarUint8Array (bytes : Bytes) : Option (Bytes × Bytes) :=
  match readVarUint bytes with
  | some (length, rest) =>
    if length ≤ rest.length then some (rest.splitAt length) else none
  | none => none

/-- An update is applied if the document does not have it. -/
def applyWhole (ydoc : List Bytes) (update : Bytes) : List Bytes × List Bytes :=
  if update ∈ ydoc then (ydoc, []) else (ydoc ++ [update], [update])

def readSyncMessage (ydoc : List Bytes) (bytes : Bytes) : SyncRead (List Bytes) :=
  match readVarUint bytes with
  | none => ⟨ydoc, [], [], true⟩
  | some (messageType, rest) =>
    match readVarUint8Array rest with
    | none => ⟨ydoc, [], [], true⟩
    | some (payload, _) =>
      if messageType = messageYjsSyncStep1 then ⟨ydoc, [], 1 :: ydoc.flatten, false⟩
      else if messageType = messageYjsSyncStep2 ∨ messageType = messageYjsUpdate then
        ⟨(applyWhole ydoc payload).1, (applyWhole ydoc payload).2, [], false⟩
      else ⟨ydoc, [], [], true⟩

/-- How deep `JSON.stringify` gets before the stack is full, thousands of levels on
a real one; `JSON.parse` keeps none. -/
def stackDepth : Nat := 4

/-- Whether the value of a JSON text can be written. -/
def writable (state : Bytes) : Bool := state.count 91 ≤ stackDepth

structure Client where
  id : Nat
  clock : Nat
  /-- Its state as JSON, `none` for null. -/
  state : Option Bytes

/-- The clients, and those each socket brought with it. -/
structure Clients where
  known : List Client
  awarenessIds : ConnId → List Nat

/-- One client of an update, with whether it is reported: taken if its clock is
newer, or if it withdraws the state of this clock. -/
def applyClient (known : List Client) (client : Client) : List Client × Bool :=
  let before := known.find? fun other => other.id = client.id
  let currClock := (before.map Client.clock).getD 0
  let hasState := before.any fun other => other.state.isSome
  if currClock < client.clock ∨ currClock = client.clock ∧ client.state = none ∧ hasState then
    (client :: known.filter fun other => other.id ≠ client.id,
      before.isSome || client.state.isSome)
  else (known, false)

/-- The clients of an update one after another, with those reported; `none` where
decoding throws, and what was read before stays. -/
def applyClients : Nat → Bytes → List Client → List Client → List Client × Option (List Client)
  | 0, _, known, reported => (known, some reported)
  | count + 1, bytes, known, reported =>
    match readVarUint bytes with
    | none => (known, none)
    | some (id, bytes) =>
      match readVarUint bytes with
      | none => (known, none)
      | some (clock, bytes) =>
        match readVarUint8Array bytes with
        | none => (known, none)
        | some (state, bytes) =>
          let client := ⟨id, clock, if state = "null".toUTF8.data.toList then none else some state⟩
          let applied := applyClient known client
          applyClients count bytes applied.1
            (if applied.2 then reported ++ [client] else reported)

/-- The observer files what is reported under the socket. -/
def fileClients (ids : List Nat) (reported : List Client) : List Nat :=
  reported.foldl (fun ids client =>
    let others := ids.filter fun id => id ≠ client.id
    if client.state.isSome then others ++ [client.id] else others) ids

def applyAwarenessUpdate (clients : Clients) (payload : Bytes) (origin : Option ConnId) :
    AwarenessRead Clients :=
  match readVarUint payload with
  | none => ⟨clients, none, true⟩
  | some (count, bytes) =>
    match applyClients count bytes clients.known [] with
    | (known, none) => ⟨{ clients with known }, none, true⟩
    | (known, some []) => ⟨{ clients with known }, none, false⟩
    | (known, some reported) =>
      let awarenessIds := match origin with
        | some c =>
          Function.update clients.awarenessIds c (fileClients (clients.awarenessIds c) reported)
        | none => clients.awarenessIds
      ⟨⟨known, awarenessIds⟩, some (reported.map Client.id), false⟩

def removeAwarenessStates (clients : Clients) (c : ConnId) : Clients × Option (List Nat) :=
  let removed := clients.known.filter fun client =>
    client.state.isSome && (clients.awarenessIds c).contains client.id
  ({ clients with known := clients.known.map fun client =>
      if (clients.awarenessIds c).contains client.id then { client with state := none }
      else client },
    if removed.isEmpty then none else some (removed.map Client.id))

/-- The count, then the id, the clock and the state of each client. -/
def encodeAwarenessUpdate (clients : Clients) (ids : List Nat) : Option Bytes :=
  let named := clients.known.filter fun client => ids.contains client.id
  if named.all fun client => client.state.all writable then
    some (Lib.Varint.writeNat named.length ++ named.flatMap fun client =>
      Lib.Varint.writeNat client.id ++ Lib.Varint.writeNat client.clock ++
        Lib.Varint.writeBytes (client.state.getD "null".toUTF8.data.toList))
  else none

/-- Updates are bytes with no meaning of their own, and no client times out. -/
def wholeUpdates : Protocols (List Bytes) Clients where
  readVarUint := readVarUint
  readVarUint8Array := readVarUint8Array
  readSyncMessage := readSyncMessage
  writeSyncStep1 _ := [0, 0]
  writeUpdate update := 2 :: update
  applyUpdate := applyWhole
  newAwareness := ⟨[], fun _ => []⟩
  applyAwarenessUpdate := applyAwarenessUpdate
  removeAwarenessStates := removeAwarenessStates
  removeOutdated clients := (clients, none)
  getStates clients := (clients.known.filter fun client => client.state.isSome).map Client.id
  encodeAwarenessUpdate := encodeAwarenessUpdate

theorem readsMessageType_wholeUpdates : ReadsMessageType wholeUpdates := by
  intro ydoc bytes messageType rest hread hstep2 hupdate
  have hread' : readVarUint bytes = some (messageType, rest) := hread
  simp only [wholeUpdates, readSyncMessage, hread']
  cases readVarUint8Array rest with
  | none => exact ⟨rfl, rfl⟩
  | some read =>
      simp only [hstep2, hupdate, or_self, if_false]
      split <;> exact ⟨rfl, rfl⟩

def emptyState : State (List Bytes) Clients :=
  .init [] wholeUpdates.newAwareness ⟨DocStore.Tables.empty, 1, 0⟩

/-- An awareness frame with one client. -/
def publishes (id clock : UInt8) (state : Bytes) : Bytes :=
  [1, state.length.toUInt8 + 4, 1, id, clock, state.length.toUInt8] ++ state

/-- The VIEWER sends an update before it is authorized, one with an overlong
type, its cursor and a step 1; the EDITOR is sent that cursor as it comes, and
sends an update. -/
def viewerAndEditor : List (Event (List Bytes)) :=
  [.upgrade 1, .frame 1 [0, 2, 1, 7], .authenticated 1 true, .authorize 1 (some .VIEWER),
    .create 0 (some []), .control (.resumeJoin 1), .enter 1, .frame 1 (publishes 9 1 [123, 125]),
    .upgrade 2, .frame 2 (publishes 8 1 [123, 125]), .authenticated 2 true,
    .authorize 2 (some .EDITOR), .control (.resumeJoin 2), .enter 2, .frame 1 [0, 130, 0, 1, 8],
    .frame 2 [0, 2, 1, 5], .frame 1 [0, 128, 0, 0], .close 2]

theorem viewer_no_influence_editor : ∃ s t : State (List Bytes) Clients,
    run (Frames.step wholeUpdates false "d") emptyState
        (viewerAndEditor.filter fun e => !isFrameOf 1 e) = some t ∧
      (s.work 0).ydoc = [[5]] ∧ SameDocument 1 s t := by
  have hrun : (run (Frames.step wholeUpdates false "d") emptyState viewerAndEditor).map
      (fun s => (s.work 0).ydoc) = some [[5]] := by decide +kernel
  obtain ⟨s, hs, hydoc⟩ := Option.map_eq_some_iff.mp hrun
  have hviewer : ∀ e ∈ viewerAndEditor, ReadsOnly 1 e := by
    simp [viewerAndEditor, ReadsOnly, hasRole, roleRank]
  obtain ⟨t, ht, hsame⟩ := viewer_no_influence readsMessageType_wholeUpdates hviewer
    (by decide +kernel) hs
  exact ⟨s, t, ht, hydoc, hsame⟩

/-- The VIEWER's state is too deep to be written.  Its socket is told to close,
the state stays until it has, and an EDITOR joins before the other one types. -/
def viewerTooDeep : List (Event (List Bytes)) :=
  [.upgrade 1, .authenticated 1 true, .authorize 1 (some .VIEWER), .create 0 (some []),
    .control (.resumeJoin 1), .enter 1, .upgrade 2, .authenticated 2 true,
    .authorize 2 (some .EDITOR), .control (.resumeJoin 2), .enter 2,
    .frame 1 (publishes 9 1 (List.replicate 5 91 ++ List.replicate 5 93)), .upgrade 3,
    .authenticated 3 true, .authorize 3 (some .EDITOR), .control (.resumeJoin 3), .enter 3,
    .frame 2 [0, 2, 1, 5]]

/-- The greeting of the third socket ends the process, and the update is lost. -/
theorem viewer_ends_process : ∃ s t : State (List Bytes) Clients,
    ReadsMessageType wholeUpdates ∧ (∀ e ∈ viewerTooDeep, ReadsOnly 1 e) ∧
      run (Frames.step wholeUpdates false "d") emptyState viewerTooDeep = some s ∧
      run (Frames.step wholeUpdates false "d") emptyState
        (viewerTooDeep.filter fun e => !isFrameOf 1 e) = some t ∧
      s.ended = true ∧ (s.work 0).ydoc = [] ∧ (t.work 0).ydoc = [[5]] ∧ ¬ SameDocument 1 s t := by
  have hrun : (run (Frames.step wholeUpdates false "d") emptyState viewerTooDeep).map
      (fun s => (s.ended, (s.work 0).ydoc)) = some (true, []) := by decide +kernel
  have hrun' : (run (Frames.step wholeUpdates false "d") emptyState
      (viewerTooDeep.filter fun e => !isFrameOf 1 e)).map (fun t => (t.work 0).ydoc) =
        some [[5]] := by decide +kernel
  obtain ⟨s, hs, hvalues⟩ := Option.map_eq_some_iff.mp hrun
  obtain ⟨t, ht, hydoc'⟩ := Option.map_eq_some_iff.mp hrun'
  obtain ⟨hended, hydoc⟩ := Prod.mk.inj hvalues
  have hviewer : ∀ e ∈ viewerTooDeep, ReadsOnly 1 e := by
    simp [viewerTooDeep, ReadsOnly, hasRole, roleRank]
  refine ⟨s, t, readsMessageType_wholeUpdates, hviewer, hs, ht, hended, hydoc, hydoc',
    fun hsame => ?_⟩
  have heq := hsame.ydoc 0
  rw [hydoc, hydoc'] at heq
  exact absurd heq (by decide)

end CollabIDE.Collab.Viewers
