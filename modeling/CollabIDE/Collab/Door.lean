import CollabIDE.Collab.Revocation
/-!
# Sockets that close at the door

The sockets of a project from the upgrade on.  A socket can close while its
handshake is authenticated, while the membership is read, while its room is
created, and later; the `close` listener that releases the room is attached once
the room is joined, and a close event fires once.
-/

namespace CollabIDE.Collab.Door

open CollabIDE.Lib.Machine CollabIDE.Projects CollabIDE.Projects.MemberTable
open CollabIDE.Collab.Rooms CollabIDE.Collab.Sockets

/-- A socket whose `handshake` has not resolved. -/
structure Pending where
  /-- Frames `collect` has kept. -/
  early : List Frame
  /-- The server has called `close` on it. -/
  closing : Bool
  closed : Bool

structure State where
  site : Site
  handshake : ConnRef → Option Pending

def State.init (projectId : String) (files : List String) (users : List Members.User)
    (members : Table) : State :=
  ⟨Site.init projectId files users members, fun _ => none⟩

def State.setHandshake (s : State) (ref : ConnRef) (pending : Option Pending) : State :=
  { s with handshake := Function.update s.handshake ref pending }

inductive Event
  /-- `handleUpgrade` has completed. -/
  | upgrade (ref : ConnRef)
  | collect (ref : ConnRef) (frame : Frame)
  | collectText (ref : ConnRef)
  /-- The socket closes before its handshake has resolved. -/
  | closeEarly (ref : ConnRef)
  /-- `handshake` resolves: to the connection of a user, or to `null`. -/
  | authenticated (ref : ConnRef) (userId : Option String)
  /-- What happens from `handleConnection` on. -/
  | site (e : Sockets.Event)

/-- The socket as it is handed to `handleConnection`. -/
def handOver (ref : ConnRef) (userId : String) (pending : Pending) : List Sockets.Event :=
  .connect ref userId pending.early ::
    (if pending.closing then [.textMessage ref] else []) ++
      if pending.closed then [.close ref] else []

def isConnect : Sockets.Event → Bool
  | .connect .. => true
  | _ => false

def step (docBusEnabled : Bool) (s : State) : Event → Option State
  | .upgrade ref =>
    if s.handshake ref = none ∧ s.site.socket ref = none then
      some (s.setHandshake ref (some ⟨[], false, false⟩))
    else none
  | .collect ref frame =>
    match s.handshake ref with
    | some pending =>
      if pending.closed then none
      else some (s.setHandshake ref (some { pending with early := pending.early ++ [frame] }))
    | none => none
  | .collectText ref =>
    match s.handshake ref with
    | some pending =>
      if pending.closed then none
      else some (s.setHandshake ref (some { pending with closing := true }))
    | none => none
  | .closeEarly ref =>
    match s.handshake ref with
    | some pending =>
      if pending.closed then none
      else some (s.setHandshake ref (some { pending with closed := true }))
    | none => none
  | .authenticated ref userId =>
    match s.handshake ref, userId with
    | some _, none => some (s.setHandshake ref none)
    | some pending, some userId =>
      (run (Sockets.step docBusEnabled) s.site (handOver ref userId pending)).map fun site =>
        { s.setHandshake ref none with site }
    | none, _ => none
  | .site e =>
    if isConnect e then none
    else (Sockets.step docBusEnabled s.site e).map fun site => { s with site }

/-! ## Ghosts -/

/-- No handshake and no join is in progress, and no `leaveRoom` is about to take
its connection out. -/
structure Idle (s : State) : Prop where
  handshake : ∀ ref, s.handshake ref = none
  authorized : ∀ ref socket, s.site.socket ref = some socket → socket.handshake = .done
  joined : ∀ docId c r, (s.site.docs docId).conn c ≠ .awaiting r ∧
    (s.site.docs docId).conn c ≠ .joined r ∧ (s.site.docs docId).conn c ≠ .leaving r

def Open (s : Site) (ref : ConnRef) : Prop :=
  ∃ socket, s.socket ref = some socket ∧ socket.closed = false

/-- No room holds a closed socket, and no room is kept without an open one. -/
structure NoGhosts (s : Site) : Prop where
  conns : ∀ docId r, ∀ c ∈ ((s.docs docId).room r).conns, Open s (docId, c)
  evicted : ∀ docId r, (∀ c ∈ ((s.docs docId).room r).conns, ¬ Open s (docId, c)) →
    (s.docs docId).entry ≠ some r

/-- A socket that enters a room has not closed yet. -/
def EntersOpen (s : State) : Event → Prop
  | .site (.enter ref) => ∀ socket r, s.site.socket ref = some socket →
      (s.site.docs ref.1).conn ref.2 = .joined r → socket.closed = false
  | _ => True

/-! ## What a turn does to one connection -/

section Turn

variable {docBusEnabled : Bool} {s s' : Site} {e : Sockets.Event} {ref : ConnRef}

/-- Only `attach` brings a connection inside a room, and only `leave` out of it. -/
inductive Carries (d : Doc) (k : ConnId) (conn : Conn) : Rooms.Event → Prop
  | attach {r : RoomId} (hjoined : d.conn k = .joined r) (hinside : conn = .inside r) :
    Carries d k conn (.attach k)
  | leave (hout : ∀ r, conn ≠ .inside r) : Carries d k conn (.leave k)
  | other {turn : Rooms.Event} (hbefore : ∀ r, d.conn k ≠ .inside r)
      (hout : ∀ r, conn ≠ .inside r) : Carries d k conn turn

theorem carries_of_step {d d' : Doc} {turn : Rooms.Event}
    (h : Rooms.step docBusEnabled d turn = some d') :
    d'.conn = d.conn ∨
      ∃ k conn, d'.conn = Function.update d.conn k conn ∧ Carries d k conn turn := by
  cases Rooms.took h with
  | @join k hc | @rejoin k _ hc =>
      obtain ⟨r, hconn⟩ := joinRoom_conn d k
      exact Or.inr ⟨k, _, hconn, .other (by simp [hc]) (by simp)⟩
  | proceed | create | writeSettles => exact Or.inl rfl
  | @refuse k _ hc =>
      exact Or.inr ⟨k, .refused, by simp [Doc.setConn], .other (by simp [hc]) (by simp)⟩
  | @enter k r hc => exact Or.inr ⟨k, .joined r, rfl, .other (by simp [hc]) (by simp)⟩
  | @attach k r hc =>
      refine Or.inr ⟨k, .inside r, ?_, .attach hc rfl⟩
      rw [Doc.setConn, (attachRoomObservers_rest docBusEnabled d r).2.2]
  | @leave k r hc =>
      obtain ⟨conn, hleave, hconn⟩ := leaveRoom_eq d k
      refine Or.inr ⟨k, conn, by rw [hleave, Doc.setConn], .leave ?_⟩
      rcases hconn with rfl | ⟨p, rfl⟩ <;> simp
  | @leaveAbsent k _ hc | @leaveShared k _ hc =>
      exact Or.inr ⟨k, .left, rfl, .other (by simp [hc]) (by simp)⟩
  | @leaveLast k r hc =>
      exact Or.inr ⟨k, .evicting r, by simp [Doc.setConn, evict, Doc.setRoom],
        .other (by simp [hc]) (by simp)⟩
  | @finishLeave k _ hc => exact Or.inr ⟨k, .left, rfl, .other (by simp [hc]) (by simp)⟩

theorem turn_of_step (h : Sockets.step docBusEnabled s e = some s') :
    s'.docs = s.docs ∨ ∃ docId turn d,
      Rooms.step docBusEnabled (s.docs docId) turn = some d ∧
      s'.docs = Function.update s.docs docId d ∧
      (∀ c, turn = .attach c → e = .enter (docId, c)) ∧
      (∀ c, turn = .leave c → e = .close (docId, c)) := by
  cases Sockets.took h with
  | join _ _ hd =>
      exact Or.inr ⟨_, _, _, hd, rfl, fun _ h => (by cases h), fun _ h => (by cases h)⟩
  | enter _ _ hd =>
      refine Or.inr ⟨_, _, _, hd, rfl, fun c h => ?_, fun _ h => by cases h⟩
      cases h
      rfl
  | @rooms docId turn d hd =>
      simp only [Sockets.step, Option.ite_none_right_eq_some] at h
      refine Or.inr ⟨docId, turn, d, hd, rfl, fun c hturn => ?_, fun c hturn => ?_⟩
      · rw [hturn] at h
        exact absurd h.1 (by simp [ownTurn])
      · rw [hturn] at h
        exact absurd h.1 (by simp [ownTurn])
  | leave _ hd =>
      refine Or.inr ⟨_, _, _, hd, rfl, fun _ h => (by cases h), fun c h => ?_⟩
      cases h
      rfl
  | _ => exact Or.inl rfl

theorem conn_of_step (h : Sockets.step docBusEnabled s e = some s') (ref : ConnRef) :
    (s'.docs ref.1).conn ref.2 = (s.docs ref.1).conn ref.2 ∨
      ∃ turn, Carries (s.docs ref.1) ref.2 ((s'.docs ref.1).conn ref.2) turn ∧
        (turn = .attach ref.2 → e = .enter ref) ∧ (turn = .leave ref.2 → e = .close ref) := by
  rcases turn_of_step h with hsame | ⟨docId, turn, d, hd, hupdate, hattach, hleave⟩
  · exact Or.inl (by rw [hsame])
  rw [hupdate]
  by_cases hid : ref.1 = docId
  · subst hid
    rw [Function.update_self]
    rcases carries_of_step hd with hsame | ⟨k, conn, hconn, hcarries⟩
    · exact Or.inl (by rw [hsame])
    · by_cases hk : ref.2 = k
      · subst hk
        rw [hconn, Function.update_self]
        exact Or.inr ⟨turn, hcarries, hattach ref.2, hleave ref.2⟩
      · exact Or.inl (by rw [hconn, Function.update_of_ne hk])
  · exact Or.inl (by rw [Function.update_of_ne hid])

theorem out_of_close (h : Sockets.step docBusEnabled s (.close ref) = some s') (r : RoomId) :
    (s'.docs ref.1).conn ref.2 ≠ .inside r := by
  cases hsocket : s.socket ref with
  | none => simp [Sockets.step, hsocket] at h
  | some socket =>
      simp only [Sockets.step, hsocket, Option.ite_none_left_eq_some] at h
      obtain ⟨-, h⟩ := h
      cases hconn : (s.docs ref.1).conn ref.2 with
      | inside k =>
          simp only [hconn] at h
          obtain ⟨d, hd, rfl⟩ := stepDoc_eq_some h
          obtain ⟨conn, hleave, hout⟩ := leaveRoom_eq (s.docs ref.1) ref.2
          have hturn : d = leaveRoom (s.docs ref.1) ref.2 := by
            cases Rooms.took hd
            rfl
          simp only [Function.update_self, hturn, hleave, Doc.setConn]
          rcases hout with rfl | ⟨p, rfl⟩ <;> simp
      | _ =>
          simp only [hconn, Option.some.injEq] at h
          rw [← h]
          simp [Site.setSocket, hconn]

/-- A connection gets inside a room by entering it, and out of it by closing. -/
theorem inside_of_step (h : Sockets.step docBusEnabled s e = some s') {r : RoomId}
    (hinside : (s'.docs ref.1).conn ref.2 = .inside r) :
    (s.docs ref.1).conn ref.2 = .inside r ∧ e ≠ .close ref ∨
      e = .enter ref ∧ (s.docs ref.1).conn ref.2 = .joined r := by
  have hclose : e ≠ .close ref := fun he => out_of_close (he ▸ h) r hinside
  rcases conn_of_step h ref with hsame | ⟨turn, hcarries, hattach, -⟩
  · exact Or.inl ⟨hsame ▸ hinside, hclose⟩
  · rw [hinside] at hcarries
    cases hcarries with
    | attach hjoined hroom =>
        cases hroom
        exact Or.inr ⟨hattach rfl, hjoined⟩
    | leave hout => exact absurd rfl (hout r)
    | other _ hout => exact absurd rfl (hout r)

theorem inside_kept (h : Sockets.step docBusEnabled s e = some s') {r : RoomId}
    (hinside : (s.docs ref.1).conn ref.2 = .inside r) (hclose : e ≠ .close ref) :
    (s'.docs ref.1).conn ref.2 = .inside r := by
  rcases conn_of_step h ref with hsame | ⟨turn, hcarries, -, hleave⟩
  · exact hsame.trans hinside
  · cases hcarries with
    | attach hjoined => exact absurd (hjoined.symm.trans hinside) (by simp)
    | leave => exact absurd (hleave rfl) hclose
    | other hbefore => exact absurd hinside (hbefore r)

theorem socket_of_step (h : Sockets.step docBusEnabled s e = some s') {socket : Socket}
    (hsocket : s.socket ref = some socket) :
    ∃ socket', s'.socket ref = some socket' ∧
      (socket'.closed = socket.closed ∨ e = .close ref ∧ socket.closed = false) := by
  have hset : ∀ (target : ConnRef) (before after : Socket), s.socket target = some before →
      (after.closed = before.closed ∨ e = .close target ∧ before.closed = false) →
      ∃ socket', Function.update s.socket target (some after) ref = some socket' ∧
        (socket'.closed = socket.closed ∨ e = .close ref ∧ socket.closed = false) := by
    intro target before after hbefore hclosed
    rw [Function.update_apply]
    split
    · next heq =>
        subst heq
        cases hbefore.symm.trans hsocket
        exact ⟨after, rfl, hclosed⟩
    · exact ⟨socket, hsocket, Or.inl rfl⟩
  have hclosed : ∀ target, e = .close target → ∀ before, s.socket target = some before →
      before.closed = false := by
    rintro target rfl before hbefore
    simp only [Sockets.step, hbefore, Option.ite_none_left_eq_some, Bool.not_eq_true] at h
    exact h.1
  cases Sockets.took h with
  | members | rooms | listRooms => exact ⟨socket, hsocket, Or.inl rfl⟩
  | connect target =>
      simp only [Sockets.step, Option.ite_none_right_eq_some] at h
      have hne : ref ≠ target := fun heq =>
        Option.some_ne_none _ (hsocket.symm.trans (heq ▸ h.1.1))
      exact ⟨socket, (Function.update_of_ne hne _ _).trans hsocket, Or.inl rfl⟩
  | readAccess htarget | join htarget | turnAway htarget | refuse htarget | queue _ htarget
  | textMessage htarget => exact hset _ _ _ htarget (Or.inl rfl)
  | enter htarget => exact hset _ _ _ htarget (Or.inl (handled_handleQueued _ _ _).closed)
  | handle _ htarget => exact hset _ _ _ htarget (Or.inl (handled_handleMessage _ _ _).closed)
  | leave htarget | closeEarly htarget =>
      exact hset _ _ _ htarget (Or.inr ⟨rfl, hclosed _ rfl _ htarget⟩)
  | walk =>
      refine ⟨_, Option.map_eq_some_iff.mpr ⟨socket, hsocket, rfl⟩, Or.inl ?_⟩
      split <;> rfl

/-- Every connection inside a room has an open socket. -/
def Attended (s : Site) : Prop :=
  ∀ (ref : ConnRef) r, (s.docs ref.1).conn ref.2 = .inside r → Open s ref

/-- A closed socket whose connection is inside a room. -/
def Ghost (s : Site) (ref : ConnRef) : Prop :=
  ∃ socket r, s.socket ref = some socket ∧ socket.closed = true ∧
    (s.docs ref.1).conn ref.2 = .inside r

theorem attended_of_step (hs : Attended s)
    (hok : ∀ ref socket r, e = .enter ref → s.socket ref = some socket →
      (s.docs ref.1).conn ref.2 = .joined r → socket.closed = false)
    (h : Sockets.step docBusEnabled s e = some s') : Attended s' := by
  intro ref r hinside
  rcases inside_of_step h hinside with ⟨hbefore, hclose⟩ | ⟨rfl, hjoined⟩
  · obtain ⟨socket, hsocket, hopen⟩ := hs ref r hbefore
    obtain ⟨socket', hsocket', hclosed⟩ := socket_of_step h hsocket
    exact ⟨socket', hsocket', (hclosed.resolve_right fun hc => hclose hc.1).trans hopen⟩
  · cases hsocket : s.socket ref with
    | none => simp [Sockets.step, hsocket] at h
    | some socket =>
        obtain ⟨socket', hsocket', hclosed⟩ := socket_of_step h hsocket
        refine ⟨socket', hsocket', ?_⟩
        exact (hclosed.resolve_right fun hc => by cases hc.1).trans
          (hok ref socket r rfl hsocket hjoined)

/-- Nothing ever takes a ghost out. -/
theorem ghost_of_step (hs : Ghost s ref) (h : Sockets.step docBusEnabled s e = some s') :
    Ghost s' ref := by
  obtain ⟨socket, r, hsocket, hclosed, hinside⟩ := hs
  obtain ⟨socket', hsocket', hsame⟩ := socket_of_step h hsocket
  have hnot : ¬ (e = .close ref ∧ socket.closed = false) := fun hc => by
    rw [hclosed] at hc
    cases hc.2
  have hclose : e ≠ .close ref := by
    rintro rfl
    simp [Sockets.step, hsocket, hclosed] at h
  exact ⟨socket', r, hsocket', (hsame.resolve_right hnot).trans hclosed,
    inside_kept h hinside hclose⟩

theorem ghost_of_enter {socket : Socket} {r : RoomId} (hsocket : s.socket ref = some socket)
    (hjoined : (s.docs ref.1).conn ref.2 = .joined r) (hclosed : socket.closed = true)
    (h : Sockets.step docBusEnabled s (.enter ref) = some s') : Ghost s' ref := by
  obtain ⟨socket', hsocket', hsame⟩ := socket_of_step h hsocket
  refine ⟨socket', r, hsocket', ?_, ?_⟩
  · exact (hsame.resolve_right fun hc => by cases hc.1).trans hclosed
  · simp only [Sockets.step, hsocket, hjoined] at h
    obtain ⟨d, hd, rfl⟩ := stepDoc_eq_some h
    have hturn := Rooms.took hd
    cases hturn with
    | attach hc =>
        simp only [Site.setSocket] at hc
        rw [hjoined] at hc
        cases hc
        simp [Doc.setConn]

end Turn

/-! ## Runs of the door -/

variable {docBusEnabled : Bool} {s s' : State}

theorem enter_not_mem_handOver (ref : ConnRef) (userId : String) (pending : Pending)
    (other : ConnRef) : Sockets.Event.enter other ∉ handOver ref userId pending := by
  unfold handOver
  cases pending.closing <;> cases pending.closed <;> simp

/-- A step of the door is a run of the site, and enters a room as one step. -/
theorem site_of_step {e : Event} (h : step docBusEnabled s e = some s') :
    ∃ events, run (Sockets.step docBusEnabled) s.site events = some s'.site ∧
      ∀ ref, .enter ref ∈ events → e = .site (.enter ref) ∧ events = [.enter ref] := by
  have hsame : s'.site = s.site → ∃ events,
      run (Sockets.step docBusEnabled) s.site events = some s'.site ∧
        ∀ ref, .enter ref ∈ events → e = .site (.enter ref) ∧ events = [.enter ref] :=
    fun heq => ⟨[], by rw [heq, run_nil], fun _ h => absurd h List.not_mem_nil⟩
  cases e with
  | upgrade ref =>
      simp only [step, Option.ite_none_right_eq_some, Option.some.injEq] at h
      exact hsame (by rw [← h.2]; rfl)
  | collect ref frame | collectText ref | closeEarly ref =>
      cases hpending : s.handshake ref with
      | none => simp [step, hpending] at h
      | some pending =>
          simp only [step, hpending, Option.ite_none_left_eq_some, Option.some.injEq] at h
          exact hsame (by rw [← h.2]; rfl)
  | authenticated ref userId =>
      cases hpending : s.handshake ref with
      | none => cases userId <;> simp [step, hpending] at h
      | some pending =>
          cases userId with
          | none =>
              simp only [step, hpending, Option.some.injEq] at h
              exact hsame (by rw [← h]; rfl)
          | some userId =>
              simp only [step, hpending, Option.map_eq_some_iff] at h
              obtain ⟨site, hrun, rfl⟩ := h
              exact ⟨_, hrun, fun other hmem =>
                absurd hmem (enter_not_mem_handOver ref userId pending other)⟩
  | site e =>
      simp only [step, Option.ite_none_left_eq_some, Option.map_eq_some_iff] at h
      obtain ⟨-, site, hsite, rfl⟩ := h
      refine ⟨[e], run_cons_eq_some.mpr ⟨site, hsite, rfl⟩, fun ref hmem => ?_⟩
      obtain rfl := List.mem_singleton.mp hmem
      exact ⟨rfl, rfl⟩

theorem known_of_step {e : Event} (hs : Known docBusEnabled s.site)
    (h : step docBusEnabled s e = some s') : Known docBusEnabled s'.site := by
  obtain ⟨events, hrun, -⟩ := site_of_step h
  exact run_invariant (fun _ _ _ => known_step) hs hrun

theorem attended_of_doorStep {e : Event} (hs : Attended s.site) (hok : EntersOpen s e)
    (h : step docBusEnabled s e = some s') : Attended s'.site := by
  obtain ⟨events, hrun, henter⟩ := site_of_step h
  by_cases hmem : ∃ ref, .enter ref ∈ events
  · obtain ⟨ref, hmem⟩ := hmem
    obtain ⟨rfl, rfl⟩ := henter ref hmem
    obtain ⟨t, ht, hrest⟩ := run_cons_eq_some.mp hrun
    cases hrest
    refine attended_of_step hs ?_ ht
    rintro other socket r ⟨⟩ hsocket hjoined
    exact hok socket r hsocket hjoined
  · have hnone : ∀ a ∈ events, ∀ t : Site, ∀ ref, a ≠ .enter ref :=
      fun a ha _ ref heq => hmem ⟨ref, heq ▸ ha⟩
    have hmeets : Meets (Sockets.step docBusEnabled) (fun _ a => ∀ ref, a ≠ .enter ref) s.site
        events := meets_of_forall hnone
    refine run_invariant_of_meets (fun s a t hs hne ht => ?_) hs hmeets hrun
    exact attended_of_step hs (fun ref _ _ heq => absurd heq (hne ref)) ht

theorem ghost_of_doorStep {e : Event} {ref : ConnRef} (hs : Ghost s.site ref)
    (h : step docBusEnabled s e = some s') : Ghost s'.site ref := by
  obtain ⟨events, hrun, -⟩ := site_of_step h
  exact run_invariant (P := fun t => Ghost t ref) (fun _ _ _ => ghost_of_step) hs hrun

theorem ghost_of_not_entersOpen {e : Event} (hbad : ¬ EntersOpen s e)
    (h : step docBusEnabled s e = some s') :
    ∃ ref, e = .site (.enter ref) ∧ Ghost s'.site ref := by
  unfold EntersOpen at hbad
  split at hbad
  · next ref =>
      simp only [not_forall, Bool.not_eq_false] at hbad
      obtain ⟨socket, r, hsocket, hjoined, hclosed⟩ := hbad
      simp only [step, isConnect, Bool.false_eq_true, if_false, Option.map_eq_some_iff] at h
      obtain ⟨site, hsite, rfl⟩ := h
      exact ⟨ref, rfl, ghost_of_enter hsocket hjoined hclosed hsite⟩
  · exact absurd trivial hbad

/-- Once nothing is in progress, a door whose rooms are attended has no ghosts. -/
theorem noGhosts_of_attended (hs : Known docBusEnabled s.site) (hattended : Attended s.site)
    (hidle : Idle s) : NoGhosts s.site := by
  have hconns : ∀ docId r, ∀ c ∈ ((s.site.docs docId).room r).conns, Open s.site (docId, c) := by
    intro docId r c hc
    obtain ⟨-, hjoined, hleaving⟩ := hidle.joined docId c r
    rcases ((hs.docs docId).conns_iff r c).mp hc with h | h | h
    · exact absurd h hjoined
    · exact hattended (docId, c) r h
    · exact absurd h hleaving
  refine ⟨hconns, fun docId r hclosed hentry => ?_⟩
  rcases (hs.docs docId).held r hentry with ⟨c, hc⟩ | ⟨c, hc⟩
  · exact (hidle.joined docId c r).1 hc
  · exact hclosed c hc (hconns docId r c hc)

/-- In every run that ends with nothing in progress: no room holds a closed
socket or is kept without an open one, exactly if every socket that entered a
room was open then. -/
theorem noGhosts_iff {projectId : String} {files : List String} {users : List Members.User}
    {members : Table} {events : List Event}
    (h : run (step docBusEnabled) (State.init projectId files users members) events = some s)
    (hidle : Idle s) :
    NoGhosts s.site ↔
      Meets (step docBusEnabled) EntersOpen (State.init projectId files users members)
        events := by
  have hknown : Known docBusEnabled s.site :=
    run_invariant (P := fun t => Known docBusEnabled t.site) (fun _ _ _ => known_of_step)
      (known_init projectId files users members) h
  constructor
  · intro hs
    by_contra hnot
    obtain ⟨pre, e, post, u, v, -, -, hbad, hv, hpost⟩ := exists_step_of_not_meets h hnot
    obtain ⟨ref, rfl, hghost⟩ := ghost_of_not_entersOpen hbad hv
    obtain ⟨socket, r, hsocket, hclosed, hinside⟩ : Ghost s.site ref :=
      run_invariant (P := fun t => Ghost t.site ref) (fun _ _ _ => ghost_of_doorStep) hghost hpost
    have hmem : ref.2 ∈ ((s.site.docs ref.1).room r).conns :=
      ((hknown.docs ref.1).conns_iff r ref.2).mpr (Or.inr (Or.inl hinside))
    obtain ⟨socket', hsocket', hopen⟩ := hs.conns ref.1 r ref.2 hmem
    cases hsocket.symm.trans hsocket'
    exact absurd (hopen.symm.trans hclosed) Bool.false_ne_true
  · intro hok
    have hattended : Attended s.site :=
      run_invariant_of_meets (P := fun t => Attended t.site) (fun _ _ _ => attended_of_doorStep)
        (fun _ _ hinside => by cases hinside) hok h
    exact noGhosts_of_attended hknown hattended hidle

/-! ## One socket alone -/

theorem idle_of_alone (ref : ConnRef) (hhandshake : ∀ other, s.handshake other = none)
    (hsocket : ∀ other ≠ ref, s.site.socket other = none)
    (hdone : (s.site.socket ref).map (·.handshake) = some .done)
    (hconn : ∀ other : ConnRef, other ≠ ref → (s.site.docs other.1).conn other.2 = .idle)
    (hsettled : ∀ r, (s.site.docs ref.1).conn ref.2 ≠ .awaiting r ∧
      (s.site.docs ref.1).conn ref.2 ≠ .joined r ∧ (s.site.docs ref.1).conn ref.2 ≠ .leaving r) :
    Idle s := by
  refine ⟨hhandshake, fun other socket hother => ?_, fun docId c k => ?_⟩
  · by_cases h : other = ref
    · subst h
      rw [hother] at hdone
      exact Option.some.inj hdone
    · exact absurd ((hsocket other h).symm.trans hother) (by simp)
  · by_cases h : (docId, c) = ref
    · subst h
      exact hsettled k
    · simp [hconn (docId, c) h]

def aliceSocket : ConnRef := ("p:f", 0)

def aliceMembers : Table := ⟨[⟨"alice", .OWNER⟩], by simp⟩

/-- Her socket enters the room, and closes later. -/
def visit : List Event :=
  [.upgrade aliceSocket, .authenticated aliceSocket (some "alice"),
    .site (.readAccess aliceSocket), .site (.authorize aliceSocket),
    .site (.rooms "p:f" (.create 0 true)), .site (.rooms "p:f" (.resumeJoin 0)),
    .site (.enter aliceSocket), .site (.close aliceSocket),
    .site (.rooms "p:f" (.resumeLeave 0)), .site (.rooms "p:f" (.writeSettles 0)),
    .site (.rooms "p:f" (.finishLeave 0))]

theorem noGhosts_iff_visit :
    ∃ s, run (step false) (State.init "p" ["p:f"] [⟨"alice", "alice@x", "Alice"⟩] aliceMembers)
        visit = some s ∧
      (NoGhosts s.site ↔ Meets (step false) EntersOpen
        (State.init "p" ["p:f"] [⟨"alice", "alice@x", "Alice"⟩] aliceMembers) visit) ∧
      NoGhosts s.site := by
  obtain ⟨s, hrun, hidle⟩ : ∃ s,
      run (step false) (State.init "p" ["p:f"] [⟨"alice", "alice@x", "Alice"⟩] aliceMembers)
        visit = some s ∧ Idle s := by
    refine ⟨_, rfl, idle_of_alone aliceSocket (fun other => ?_) (fun other h => ?_) rfl
      (fun other h => ?_) fun r => ⟨nofun, nofun, nofun⟩⟩
    · by_cases h : other = aliceSocket
      · rw [h]
        rfl
      · repeat' refine (Function.update_of_ne h _ _).trans ?_
        rfl
    · repeat' refine (Function.update_of_ne h _ _).trans ?_
      rfl
    · obtain ⟨docId, c⟩ := other
      by_cases hdoc : docId = "p:f"
      · subst hdoc
        have hc : c ≠ 0 := fun hc => h (by rw [hc]; rfl)
        repeat' refine (Function.update_of_ne hc _ _).trans ?_
        rfl
      · have hempty : ∀ d : Doc, d = Doc.empty → d.conn c = .idle := fun d hd => by rw [hd]; rfl
        apply hempty
        repeat' refine (Function.update_of_ne hdoc _ _).trans ?_
        rfl
  have hiff := noGhosts_iff hrun hidle
  refine ⟨s, hrun, hiff, hiff.mpr ?_⟩
  have hbefore : run (step false)
      (State.init "p" ["p:f"] [⟨"alice", "alice@x", "Alice"⟩] aliceMembers) (visit.take 6) =
        some _ := rfl
  have hfront : ∀ e ∈ visit.take 6, ∀ t, EntersOpen t e := by
    simp [visit, EntersOpen]
  have hback : ∀ e ∈ visit.drop 7, ∀ t, EntersOpen t e := by
    simp [visit, EntersOpen]
  refine (meets_append hbefore).mpr ⟨meets_of_forall hfront, ?_, fun _ _ => meets_of_forall hback⟩
  intro socket r hsocket _
  obtain rfl := Option.some.inj hsocket
  rfl

/-! ## A socket that closes while it is authenticated -/

/-- Her socket closes before the handshake resolves, and joins all the same. -/
def closedWhileAuthenticated : List Event :=
  [.upgrade aliceSocket, .closeEarly aliceSocket, .authenticated aliceSocket (some "alice"),
    .site (.readAccess aliceSocket), .site (.authorize aliceSocket),
    .site (.rooms "p:f" (.create 0 true)), .site (.rooms "p:f" (.resumeJoin 0)),
    .site (.enter aliceSocket)]

theorem closedWhileAuthenticated_run :
    ∃ s, run (step false) (State.init "p" ["p:f"] [⟨"alice", "alice@x", "Alice"⟩] aliceMembers)
        closedWhileAuthenticated = some s ∧
      Idle s ∧ (s.site.socket aliceSocket).map (·.closed) = some true ∧
      (0 : ConnId) ∈ ((s.site.docs "p:f").room 0).conns := by
  refine ⟨_, rfl, idle_of_alone aliceSocket (fun other => ?_) (fun other h => ?_) rfl
    (fun other h => ?_) fun r => ⟨nofun, nofun, nofun⟩, rfl, Finset.mem_insert_self 0 ∅⟩
  · by_cases h : other = aliceSocket
    · rw [h]
      rfl
    · repeat' refine (Function.update_of_ne h _ _).trans ?_
      rfl
  · repeat' refine (Function.update_of_ne h _ _).trans ?_
    rfl
  · obtain ⟨docId, c⟩ := other
    by_cases hdoc : docId = "p:f"
    · subst hdoc
      have hc : c ≠ 0 := fun hc => h (by rw [hc]; rfl)
      repeat' refine (Function.update_of_ne hc _ _).trans ?_
      rfl
    · have hempty : ∀ d : Doc, d = Doc.empty → d.conn c = .idle := fun d hd => by rw [hd]; rfl
      apply hempty
      repeat' refine (Function.update_of_ne hdoc _ _).trans ?_
      rfl

theorem not_noGhosts_closedWhileAuthenticated :
    ¬ ∀ s, run (step false)
        (State.init "p" ["p:f"] [⟨"alice", "alice@x", "Alice"⟩] aliceMembers)
        closedWhileAuthenticated = some s → Idle s → NoGhosts s.site := by
  intro hclaim
  obtain ⟨s, hrun, hidle, hclosed, hmem⟩ := closedWhileAuthenticated_run
  obtain ⟨socket, hsocket, hopen⟩ := (hclaim s hrun hidle).conns "p:f" 0 0 hmem
  have hsame : s.site.socket aliceSocket = some socket := hsocket
  rw [hsame, Option.map_some, hopen] at hclosed
  exact absurd hclosed (by simp)

end CollabIDE.Collab.Door
