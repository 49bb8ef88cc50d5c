import CollabIDE.Collab.Viewers
/-!
# The connection of a client

`CollabProvider` as the machine of its sockets, its retry timer and its status,
over the events of the browser.  A socket's events reach it while its listeners
are attached, the close comes once and last, and a timer fires at any time
after it is armed.  What is sent, and awareness, nothing here depends on.
-/

namespace CollabIDE.Collab.Connection

open CollabIDE.Lib.Machine CollabIDE.Shared.Protocol CollabIDE.Collab.Frames

inductive CollabStatus
  | connecting
  | synced
  | reconnecting
  | closed
  deriving DecidableEq

/-- Application close codes that mean "do not try again". -/
def TERMINAL : List Nat := [4400, 4401, 4403, 4404, 4409]

def isTerminalClose (code : Nat) : Bool := TERMINAL.contains code

abbrev SocketId := Nat
abbrev TimerId := Nat

/-- The provider, and what the browser has of it. -/
structure State (Y : Type) where
  status : CollabStatus
  closeCode : Nat
  closeReason : String
  ready : Bool
  socket : Option SocketId
  retry : Option TimerId
  attempt : Nat
  destroyed : Bool
  ydoc : Y
  /-- How many sockets have been opened. -/
  opened : Nat
  /-- The sockets with our listeners. -/
  listened : List SocketId
  /-- The sockets whose close event has fired. -/
  closed : List SocketId
  /-- How many timers have been armed. -/
  armed : Nat
  timers : List TimerId
  /-- The window has our listener for `online`. -/
  online : Bool

variable {Y A : Type}

/-! ## The provider -/

def connect (s : State Y) : State Y :=
  if s.destroyed then s
  else
    { s with
      opened := s.opened + 1, listened := s.listened ++ [s.opened], socket := some s.opened }

def detachSocket (s : State Y) : State Y :=
  match s.socket with
  | none => s
  | some socket => { s with listened := s.listened.filter (· ≠ socket), socket := none }

def setStatus (s : State Y) (status : CollabStatus) : State Y := { s with status }

def setReady (s : State Y) : State Y :=
  if s.ready || s.destroyed then s else { s with ready := true }

def clearRetry (s : State Y) : State Y :=
  match s.retry with
  | none => s
  | some timer => { s with timers := s.timers.filter (· ≠ timer), retry := none }

def destroy (s : State Y) : State Y :=
  if s.destroyed then s
  else
    let s := clearRetry { s with destroyed := true }
    detachSocket { s with online := false }

/-- It sends the state vector and our presence. -/
def handleOpen (s : State Y) : State Y := s

def handleOnline (s : State Y) : State Y :=
  if s.destroyed || s.status ≠ .reconnecting then s else connect (detachSocket (clearRetry s))

/-- A message that cannot be read throws, with what it has done by then. -/
def handleMessage (P : Protocols Y A) (s : State Y) (data : Bytes) : State Y :=
  match P.readVarUint data with
  | none => s
  | some (messageType, rest) =>
    if messageType = MessageType.Sync then
      let read := P.readSyncMessage s.ydoc rest
      let s := { s with ydoc := read.ydoc }
      if read.throws then s
      else
        let s : State Y := { setReady s with attempt := 0 }
        if s.status ≠ .synced then setStatus s .synced else s
    else s

/-- The timer is armed with `backoffDelay`. -/
def handleClose (s : State Y) (code : Nat) (reason : String) : State Y :=
  if s.destroyed then s
  else
    let s := { s with closeCode := code, closeReason := reason }
    if isTerminalClose code then setStatus s .closed
    else
      let s := clearRetry { setStatus s .reconnecting with attempt := s.attempt + 1 }
      { s with armed := s.armed + 1, timers := s.timers ++ [s.armed], retry := some s.armed }

/-- What the timer was armed with. -/
def retryNow (s : State Y) : State Y := connect (detachSocket { s with retry := none })

/-- The constructor. -/
def start (ydoc : Y) : State Y :=
  connect ⟨.connecting, 0, "", false, none, none, 0, false, ydoc, 0, [], [], 0, [], true⟩

/-! ## Events -/

inductive Event
  /-- `whenSynced` resolves, and the local store had something or not. -/
  | loaded (something : Bool)
  | opened (socket : SocketId)
  | message (socket : SocketId) (data : Bytes)
  | closed (socket : SocketId) (code : Nat) (reason : String)
  | online
  | retry (timer : TimerId)
  | destroy
  deriving DecidableEq

/-- A socket with our listeners that has not closed. -/
def Live (s : State Y) (socket : SocketId) : Prop := socket ∈ s.listened ∧ socket ∉ s.closed

instance (s : State Y) (socket : SocketId) : Decidable (Live s socket) :=
  inferInstanceAs (Decidable (_ ∧ _))

def step (P : Protocols Y A) (s : State Y) : Event → Option (State Y)
  | .loaded something => some (if something then setReady s else s)
  | .opened socket => if Live s socket then some (handleOpen s) else none
  | .message socket data => if Live s socket then some (handleMessage P s data) else none
  | .closed socket code reason =>
    if Live s socket then some (handleClose { s with closed := s.closed ++ [socket] } code reason)
    else none
  | .online => if s.online then some (handleOnline s) else none
  | .retry timer =>
    if timer ∈ s.timers then
      some (retryNow { s with timers := s.timers.filter (· ≠ timer) })
    else none
  | .destroy => some (destroy s)

/-! ## Since the last sync -/

/-- A Sync message, as far as its first byte says. -/
def isSyncMessage (P : Protocols Y A) : Event → Bool
  | .message _ data => (P.readVarUint data).any fun read => read.1 = MessageType.Sync
  | _ => false

/-- A Sync message that can be read. -/
def isSync (P : Protocols Y A) (s : State Y) : Event → Bool
  | .message _ data =>
    (P.readVarUint data).any fun read =>
      read.1 = MessageType.Sync && !(P.readSyncMessage s.ydoc read.2).throws
  | _ => false

def isRetryable : Event → Bool
  | .closed _ code _ => !isTerminalClose code
  | _ => false

/-- The events of a run, each with the state it came in. -/
def trace (P : Protocols Y A) : State Y → List Event → List (State Y × Event)
  | _, [] => []
  | s, e :: es =>
    (s, e) :: match step P s e with
      | some t => trace P t es
      | none => []

/-- The closes that may be retried behind the last event that counts as a sync. -/
def closesSince (counts : State Y × Event → Bool) (events : List (State Y × Event)) : Nat :=
  (events.reverse.takeWhile fun e => !counts e).countP fun e => isRetryable e.2

/-! ## The invariant -/

/-- The listeners are on the provider's socket, and the timer is the provider's.  It waits for the
next try after a close; after the last close, and after `destroy`, there is nothing to come. -/
structure Coherent (s : State Y) : Prop where
  listened : s.listened = s.socket.toList
  timers : s.timers = s.retry.toList
  destroyed : s.destroyed = true → s.socket = none ∧ s.retry = none
  waiting : s.retry ≠ none → s.status = .reconnecting ∧ ∃ socket ∈ s.socket, socket ∈ s.closed
  ended : s.status = .closed → s.retry = none ∧ ∀ socket ∈ s.socket, socket ∈ s.closed

section Coherent

variable {P : Protocols Y A} {s t : State Y} {e : Event}

theorem detachSocket_eq (h : s.listened = s.socket.toList) :
    detachSocket s = { s with listened := [], socket := none } := by
  unfold detachSocket
  cases hsocket : s.socket with
  | none =>
      rw [hsocket] at h
      cases s
      simp_all
  | some socket => simp [h, hsocket]

theorem clearRetry_eq (h : s.timers = s.retry.toList) :
    clearRetry s = { s with timers := [], retry := none } := by
  unfold clearRetry
  cases hretry : s.retry with
  | none =>
      rw [hretry] at h
      cases s
      simp_all
  | some timer => simp [h, hretry]

/-- A socket whose events still come is the provider's; no timer waits, and nothing is over. -/
theorem Coherent.live (h : Coherent s) {socket : SocketId} (hlive : Live s socket) :
    s.socket = some socket ∧ s.retry = none ∧ s.destroyed = false ∧ s.status ≠ .closed := by
  have hsocket : s.socket = some socket := by
    have hmem := hlive.1
    rw [h.listened] at hmem
    exact Option.mem_toList.mp hmem
  refine ⟨hsocket, ?_, ?_, fun hover => ?_⟩
  · by_contra hretry
    obtain ⟨other, hother, hclosed⟩ := (h.waiting hretry).2
    rw [hsocket, Option.mem_some_iff] at hother
    exact hlive.2 (hother ▸ hclosed)
  · by_contra hdestroyed
    have hnone := (h.destroyed (Bool.eq_true_of_not_eq_false hdestroyed)).1
    rw [hsocket] at hnone
    cases hnone
  · exact hlive.2 ((h.ended hover).2 socket hsocket)

theorem coherent_start (ydoc : Y) : Coherent (start ydoc) where
  listened := rfl
  timers := rfl
  destroyed := by simp [start, connect]
  waiting := by simp [start, connect]
  ended := by simp [start, connect]

theorem Coherent.setReady (h : Coherent s) : Coherent (setReady s) := by
  unfold Connection.setReady
  split_ifs
  · exact h
  · exact ⟨h.listened, h.timers, h.destroyed, h.waiting, h.ended⟩

theorem coherent_renew (hstatus : s.status = .reconnecting)
    (hdestroyed : s.destroyed = false) :
    Coherent (connect { s with listened := [], socket := none, timers := [], retry := none }) := by
  simp only [connect, hdestroyed, Bool.false_eq_true, if_false]
  exact ⟨rfl, rfl, by simp, by simp, by simp [hstatus]⟩

theorem Coherent.handleOnline (h : Coherent s) : Coherent (handleOnline s) := by
  unfold Connection.handleOnline
  split_ifs with hskip
  · exact h
  simp only [Bool.or_eq_true, decide_eq_true_eq, ne_eq, not_or, Bool.not_eq_true,
    Decidable.not_not] at hskip
  rw [clearRetry_eq h.timers, detachSocket_eq (by simpa using h.listened)]
  exact coherent_renew hskip.2 hskip.1

theorem handleMessage_eq (P : Protocols Y A) (s : State Y) (socket : SocketId) (data : Bytes) :
    ∃ ydoc ready, handleMessage P s data =
      if isSync P s (.message socket data) then
        { s with ydoc, ready, attempt := 0, status := .synced }
      else { s with ydoc, ready } := by
  cases hread : P.readVarUint data with
  | none => exact ⟨s.ydoc, s.ready, by simp [Connection.handleMessage, isSync, hread]⟩
  | some read =>
      obtain ⟨messageType, rest⟩ := read
      by_cases htype : messageType = MessageType.Sync
      · cases hthrows : (P.readSyncMessage s.ydoc rest).throws with
        | true =>
            refine ⟨(P.readSyncMessage s.ydoc rest).ydoc, s.ready, ?_⟩
            simp [Connection.handleMessage, isSync, hread, htype, hthrows]
        | false =>
            have hready : ∃ ready, Connection.setReady
                { s with ydoc := (P.readSyncMessage s.ydoc rest).ydoc } =
                  { s with ydoc := (P.readSyncMessage s.ydoc rest).ydoc, ready } := by
              unfold Connection.setReady
              split_ifs
              · exact ⟨s.ready, rfl⟩
              · exact ⟨true, rfl⟩
            obtain ⟨ready, hready⟩ := hready
            refine ⟨(P.readSyncMessage s.ydoc rest).ydoc, ready, ?_⟩
            simp only [Connection.handleMessage, isSync, hread, htype, hthrows, hready, setStatus,
              Option.any_some, decide_true, Bool.not_false, Bool.and_self, if_true]
            by_cases hsynced : s.status = .synced
            · simp [hsynced]
            · simp [hsynced]
      · exact ⟨s.ydoc, s.ready, by simp [Connection.handleMessage, isSync, hread, htype]⟩

theorem Coherent.handleMessage (h : Coherent s) {socket : SocketId} (hlive : Live s socket)
    (data : Bytes) : Coherent (handleMessage P s data) := by
  obtain ⟨hsocket, hretry, -, hopen⟩ := h.live hlive
  obtain ⟨ydoc, ready, heq⟩ := handleMessage_eq P s socket data
  rw [heq]
  split_ifs
  · exact ⟨h.listened, h.timers, h.destroyed, fun hne => absurd hretry hne, by simp⟩
  · exact ⟨h.listened, h.timers, h.destroyed, h.waiting, h.ended⟩

theorem handleClose_eq (h : Coherent s) {socket : SocketId} (hlive : Live s socket) (code : Nat)
    (reason : String) :
    handleClose { s with closed := s.closed ++ [socket] } code reason =
      if isTerminalClose code then
        { s with
          closed := s.closed ++ [socket], closeCode := code, closeReason := reason
          status := .closed }
      else
        { s with
          closed := s.closed ++ [socket], closeCode := code, closeReason := reason
          status := .reconnecting, attempt := s.attempt + 1, armed := s.armed + 1
          timers := [s.armed], retry := some s.armed } := by
  obtain ⟨-, hretry, hdestroyed, -⟩ := h.live hlive
  have htimers : s.timers = [] := by rw [h.timers, hretry]; rfl
  simp [handleClose, hdestroyed, clearRetry, setStatus, hretry, htimers]

theorem Coherent.handleClose (h : Coherent s) {socket : SocketId} (hlive : Live s socket)
    (code : Nat) (reason : String) :
    Coherent (handleClose { s with closed := s.closed ++ [socket] } code reason) := by
  obtain ⟨hsocket, hretry, hdestroyed, -⟩ := h.live hlive
  have hended : ∀ other ∈ s.socket, other ∈ s.closed ++ [socket] := by
    intro other hother
    rw [hsocket, Option.mem_some_iff] at hother
    exact List.mem_append_right _ (hother ▸ List.mem_singleton_self socket)
  rw [handleClose_eq h hlive]
  split_ifs
  · exact ⟨h.listened, h.timers, h.destroyed, fun hne => absurd hretry hne, fun _ =>
      ⟨hretry, hended⟩⟩
  · exact ⟨h.listened, rfl, by simp [hdestroyed],
      fun _ => ⟨rfl, socket, hsocket, hended socket hsocket⟩, by simp⟩

theorem Coherent.retryNow (h : Coherent s) {timer : TimerId} (htimer : timer ∈ s.timers) :
    Coherent (retryNow { s with timers := s.timers.filter (· ≠ timer) }) := by
  have hretry : s.retry = some timer := by
    rw [h.timers] at htimer
    exact Option.mem_toList.mp htimer
  obtain ⟨hstatus, -⟩ := h.waiting (by simp [hretry])
  have hdestroyed : s.destroyed = false := by
    by_contra hne
    have hnone := (h.destroyed (Bool.eq_true_of_not_eq_false hne)).2
    rw [hretry] at hnone
    cases hnone
  have htimers : s.timers.filter (· ≠ timer) = [] := by simp [h.timers, hretry]
  rw [Connection.retryNow, htimers, detachSocket_eq (by exact h.listened)]
  exact coherent_renew hstatus hdestroyed

theorem destroy_eq (h : Coherent s) (hdestroyed : s.destroyed = false) :
    destroy s = { s with
      destroyed := true, timers := [], retry := none, online := false, listened := []
      socket := none } := by
  rw [destroy, if_neg (by simp [hdestroyed]), clearRetry_eq (by exact h.timers),
    detachSocket_eq (by exact h.listened)]

theorem Coherent.destroy (h : Coherent s) : Coherent (destroy s) := by
  cases hdestroyed : s.destroyed with
  | true => rwa [Connection.destroy, if_pos hdestroyed]
  | false =>
      rw [destroy_eq h hdestroyed]
      exact ⟨rfl, rfl, fun _ => ⟨rfl, rfl⟩, by simp, by simp⟩

theorem Coherent.step (h : Coherent s) (hs : step P s e = some t) : Coherent t := by
  cases e with
  | loaded something =>
      cases hs
      split_ifs
      · exact h.setReady
      · exact h
  | opened socket =>
      obtain ⟨-, heq⟩ := Option.ite_none_right_eq_some.mp hs
      cases heq
      exact h
  | message socket data =>
      obtain ⟨hlive, heq⟩ := Option.ite_none_right_eq_some.mp hs
      cases heq
      exact h.handleMessage hlive data
  | closed socket code reason =>
      obtain ⟨hlive, heq⟩ := Option.ite_none_right_eq_some.mp hs
      cases heq
      exact h.handleClose hlive code reason
  | online =>
      obtain ⟨-, heq⟩ := Option.ite_none_right_eq_some.mp hs
      cases heq
      exact h.handleOnline
  | retry timer =>
      obtain ⟨htimer, heq⟩ := Option.ite_none_right_eq_some.mp hs
      cases heq
      exact h.retryNow htimer
  | destroy =>
      cases hs
      exact h.destroy

theorem coherent_run {ydoc : Y} {es : List Event}
    (h : run (Connection.step P) (start ydoc) es = some s) : Coherent s :=
  run_invariant (fun _ _ _ hs => hs.step) (coherent_start ydoc) h

end Coherent

/-! ## The end -/

section Over

variable {P : Protocols Y A} {s t u : State Y} {e : Event} {es : List Event}

/-- `destroy`, or a close that is not to be retried. -/
def Ends : Event → Prop
  | .destroy => True
  | .closed _ code _ => isTerminalClose code = true
  | _ => False

def Over (s : State Y) : Prop := s.destroyed = true ∨ s.status = .closed

theorem over_of_ends (h : Coherent s) (he : Ends e) (hs : step P s e = some t) : Over t := by
  cases e with
  | destroy =>
      cases hs
      cases hdestroyed : s.destroyed with
      | true => exact .inl (by rw [destroy, if_pos hdestroyed]; exact hdestroyed)
      | false => exact .inl (by rw [destroy_eq h hdestroyed])
  | closed socket code reason =>
      obtain ⟨hlive, heq⟩ := Option.ite_none_right_eq_some.mp hs
      cases heq
      have hterminal : isTerminalClose code = true := he
      rw [handleClose_eq h hlive, if_pos hterminal]
      exact .inr rfl
  | _ => exact absurd he id

/-- Once it is over no socket is live and no timer waits, so that nothing is started. -/
theorem Over.step (h : Coherent s) (hover : Over s) (hs : step P s e = some t) :
    Over t ∧ t.opened = s.opened ∧ t.armed = s.armed := by
  have hdead : ∀ socket, ¬ Live s socket := by
    intro socket hlive
    obtain ⟨-, -, hdestroyed, hopen⟩ := h.live hlive
    rcases hover with hover | hover
    · rw [hdestroyed] at hover
      cases hover
    · exact hopen hover
  have hretry : s.retry = none := hover.elim (fun h' => (h.destroyed h').2) fun h' => (h.ended h').1
  cases e with
  | loaded something =>
      cases hs
      split_ifs
      · unfold setReady
        split_ifs
        · exact ⟨hover, rfl, rfl⟩
        · exact ⟨hover, rfl, rfl⟩
      · exact ⟨hover, rfl, rfl⟩
  | opened socket => exact absurd (Option.ite_none_right_eq_some.mp hs).1 (hdead socket)
  | message socket data => exact absurd (Option.ite_none_right_eq_some.mp hs).1 (hdead socket)
  | closed socket code reason =>
      exact absurd (Option.ite_none_right_eq_some.mp hs).1 (hdead socket)
  | online =>
      obtain ⟨-, heq⟩ := Option.ite_none_right_eq_some.mp hs
      cases heq
      have hskip : (s.destroyed || decide (s.status ≠ .reconnecting)) = true := by
        rcases hover with hover | hover
        · simp [hover]
        · simp [hover]
      rw [handleOnline, if_pos hskip]
      exact ⟨hover, rfl, rfl⟩
  | retry timer =>
      have htimer := (Option.ite_none_right_eq_some.mp hs).1
      rw [h.timers, hretry] at htimer
      cases htimer
  | destroy =>
      cases hs
      cases hdestroyed : s.destroyed with
      | true =>
          rw [destroy, if_pos hdestroyed]
          exact ⟨hover, rfl, rfl⟩
      | false =>
          rw [destroy_eq h hdestroyed]
          exact ⟨.inl rfl, rfl, rfl⟩

theorem Over.run (h : Coherent s) (hover : Over s)
    (hrun : run (Connection.step P) s es = some t) :
    t.opened = s.opened ∧ t.armed = s.armed := by
  have hall : Coherent t ∧ Over t ∧ t.opened = s.opened ∧ t.armed = s.armed := by
    refine run_invariant (P := fun t => Coherent t ∧ Over t ∧ t.opened = s.opened ∧
      t.armed = s.armed) (fun u e v hu hstep => ?_) ⟨h, hover, rfl, rfl⟩ hrun
    obtain ⟨hcoherent, hover, hopened, harmed⟩ := hu
    obtain ⟨hover', hopened', harmed'⟩ := hover.step hcoherent hstep
    exact ⟨hcoherent.step hstep, hover', hopened'.trans hopened, harmed'.trans harmed⟩
  exact hall.2.2

end Over

/-! ## The attempts -/

section Attempts

variable {P : Protocols Y A} {s t : State Y} {e : Event} {es : List Event}

theorem trace_append (hrun : run (step P) s es = some t) :
    trace P s (es ++ [e]) = trace P s es ++ [(t, e)] := by
  induction es generalizing s with
  | nil =>
      cases hrun
      simp only [List.nil_append, trace]
      cases step P t e <;> rfl
  | cons e' es ih =>
      obtain ⟨u, hu, hrest⟩ := run_cons_eq_some.mp hrun
      rw [List.cons_append, trace, trace, hu, List.cons_append]
      exact congrArg ((s, e') :: ·) (ih hrest)

theorem closesSince_append (counts : State Y × Event → Bool) (events : List (State Y × Event))
    (e : State Y × Event) :
    closesSince counts (events ++ [e]) =
      if counts e then 0 else closesSince counts events + if isRetryable e.2 then 1 else 0 := by
  cases hcounts : counts e <;>
    simp [closesSince, List.countP_cons, hcounts]

@[simp] theorem attempt_connect (s : State Y) : (connect s).attempt = s.attempt := by
  unfold connect
  split_ifs <;> rfl

@[simp] theorem attempt_detachSocket (s : State Y) : (detachSocket s).attempt = s.attempt := by
  unfold detachSocket
  cases s.socket <;> rfl

@[simp] theorem attempt_clearRetry (s : State Y) : (clearRetry s).attempt = s.attempt := by
  unfold clearRetry
  cases s.retry <;> rfl

@[simp] theorem attempt_setReady (s : State Y) : (setReady s).attempt = s.attempt := by
  unfold setReady
  split_ifs <;> rfl

@[simp] theorem attempt_handleOnline (s : State Y) : (handleOnline s).attempt = s.attempt := by
  unfold handleOnline
  split_ifs <;> simp

@[simp] theorem attempt_destroy (s : State Y) : (destroy s).attempt = s.attempt := by
  unfold destroy
  split_ifs <;> simp

theorem attempt_step (h : Coherent s) (hs : step P s e = some t) :
    t.attempt = if isSync P s e then 0 else s.attempt + if isRetryable e then 1 else 0 := by
  cases e with
  | loaded something =>
      cases hs
      cases something <;> simp [isSync, isRetryable]
  | opened socket =>
      obtain ⟨-, heq⟩ := Option.ite_none_right_eq_some.mp hs
      cases heq
      simp [isSync, isRetryable, handleOpen]
  | message socket data =>
      obtain ⟨-, heq⟩ := Option.ite_none_right_eq_some.mp hs
      cases heq
      obtain ⟨ydoc, ready, heq⟩ := handleMessage_eq P s socket data
      rw [heq]
      cases isSync P s (.message socket data) <;> simp [isRetryable]
  | closed socket code reason =>
      obtain ⟨hlive, heq⟩ := Option.ite_none_right_eq_some.mp hs
      cases heq
      rw [handleClose_eq h hlive]
      cases hcode : isTerminalClose code <;> simp [isSync, isRetryable, hcode]
  | online =>
      obtain ⟨-, heq⟩ := Option.ite_none_right_eq_some.mp hs
      cases heq
      simp [isSync, isRetryable]
  | retry timer =>
      obtain ⟨-, heq⟩ := Option.ite_none_right_eq_some.mp hs
      cases heq
      simp [isSync, isRetryable, retryNow]
  | destroy =>
      cases hs
      simp [isSync, isRetryable]

theorem attempt_run {ydoc : Y} (h : run (step P) (start ydoc) es = some s) :
    s.attempt = closesSince (fun e => isSync P e.1 e.2) (trace P (start ydoc) es) := by
  induction es using List.reverseRecOn generalizing s with
  | nil =>
      cases h
      rfl
  | append_singleton es e ih =>
      obtain ⟨u, hu, hlast⟩ := run_append_eq_some.mp h
      obtain ⟨t, ht, hend⟩ := run_cons_eq_some.mp hlast
      cases hend
      rw [trace_append hu, closesSince_append, ← ih hu]
      exact attempt_step (coherent_run hu) ht

end Attempts

/-! ## Every run -/

/-- In every run: the listeners are on one socket at most; a timer waits only between a close that
may be retried and the next try; nothing is started once it is over; and the attempts are the
closes since the last sync. -/
theorem connection_sound (P : Protocols Y A) (ydoc : Y) (es : List Event) (s : State Y)
    (h : run (step P) (start ydoc) es = some s) :
    s.listened.length ≤ 1 ∧
    (s.timers ≠ [] → s.status = .reconnecting ∧ s.destroyed = false ∧
      ∃ socket, s.socket = some socket ∧ socket ∈ s.closed) ∧
    (∀ pre e post t, es = pre ++ e :: post → run (step P) (start ydoc) (pre ++ [e]) = some t →
      Ends e → s.opened = t.opened ∧ s.armed = t.armed) ∧
    s.attempt = closesSince (fun e => isSync P e.1 e.2) (trace P (start ydoc) es) := by
  have hcoherent := coherent_run h
  refine ⟨?_, fun htimers => ?_, fun pre e post t hes ht hends => ?_, attempt_run h⟩
  · rw [hcoherent.listened]
    cases s.socket <;> simp
  · have hretry : s.retry ≠ none := fun hnone => htimers (by rw [hcoherent.timers, hnone]; rfl)
    obtain ⟨hstatus, socket, hsocket, hclosed⟩ := hcoherent.waiting hretry
    refine ⟨hstatus, ?_, socket, hsocket, hclosed⟩
    by_contra hdestroyed
    exact hretry (hcoherent.destroyed (Bool.eq_true_of_not_eq_false hdestroyed)).2
  · rw [hes, ← List.singleton_append, ← List.append_assoc, run_append, ht] at h
    obtain ⟨u, hu, hlast⟩ := run_append_eq_some.mp ht
    obtain ⟨v, hv, hend⟩ := run_cons_eq_some.mp hlast
    cases hend
    exact Over.run (coherent_run ht) (over_of_ends (coherent_run hu) hends hv) h

/-- A close, a message of the new socket, and a close that is not to be retried. -/
theorem connection_sound_run :
    ∃ s, run (step Viewers.wholeUpdates) (start []) [.closed 0 1006 "", .retry 0,
        .message 1 [0, 2, 0], .closed 1 4409 "", .online] = some s ∧
      s.listened.length ≤ 1 ∧ s.opened = 2 ∧ s.attempt = 0 := by
  obtain ⟨s, hs⟩ : ∃ s, run (step Viewers.wholeUpdates) (start []) [.closed 0 1006 "", .retry 0,
      .message 1 [0, 2, 0], .closed 1 4409 "", .online] = some s :=
    Option.isSome_iff_exists.mp (by decide)
  obtain ⟨t, ht, hopened⟩ : ∃ t, run (step Viewers.wholeUpdates) (start [])
      [.closed 0 1006 "", .retry 0, .message 1 [0, 2, 0], .closed 1 4409 ""] = some t ∧
        t.opened = 2 :=
    Option.map_eq_some_iff.mp (by decide)
  obtain ⟨hone, -, hover, hattempt⟩ := connection_sound Viewers.wholeUpdates [] _ s hs
  refine ⟨s, hs, hone, ?_, hattempt.trans (by decide)⟩
  have hends : Ends (.closed 1 4409 "") := rfl
  rw [(hover [.closed 0 1006 "", .retry 0, .message 1 [0, 2, 0]] _ [.online] t rfl ht hends).1,
    hopened]

/-- A Sync message without a body throws before the counter is reset. -/
theorem unreadable_sync_keeps_attempt :
    (run (step Viewers.wholeUpdates) (start []) [.closed 0 1006 "", .retry 0, .message 1 [0]]).map
        State.attempt = some 1 ∧
      closesSince (fun e => isSyncMessage Viewers.wholeUpdates e.2)
        (trace Viewers.wholeUpdates (start [])
          [.closed 0 1006 "", .retry 0, .message 1 [0]]) = 0 := by
  decide

end CollabIDE.Collab.Connection
