import CollabIDE.Collab.RoomsInvariant
import CollabIDE.Collab.WsServer
/-!
# Rooms that could not be created

A `createRoom` that throws rejects the promise `joinRoom` has put into the map.
The awaits of that promise throw, and nothing takes it out: the clean-up of
`joinRoom` comes after the await, for a promise that resolved to `null`, and
that of `leaveRoom` for a room that was joined.
-/

namespace CollabIDE.Collab.FailedRooms

open CollabIDE.Lib.Machine CollabIDE.Http.Cookies CollabIDE.Collab.Rooms

inductive Promise (α : Type)
  | pending
  | fulfilled (value : α)
  | rejected (error : Thrown)

def Promise.map {α β : Type} (f : α → β) : Promise α → Promise β
  | .pending => .pending
  | .fulfilled value => .fulfilled (f value)
  | .rejected error => .rejected error

/-- `Promise.all`, as far as the promises have come. -/
def Promise.all {α : Type} : List (Promise α) → Promise (List α)
  | [] => .fulfilled []
  | .rejected error :: _ => .rejected error
  | .fulfilled value :: rest => (all rest).map (value :: ·)
  | .pending :: rest =>
    match all rest with
    | .rejected error => .rejected error
    | _ => .pending

/-- One process: its map of rooms, and what happened to each document. -/
structure State where
  /-- The keys of `rooms`, in insertion order. -/
  keys : List String
  docs : String → Doc
  /-- The promises of `createRoom` that rejected. -/
  rejected : String → RoomId → Option Thrown
  /-- The calls of `joinRoom` and `leaveRoom` that threw. -/
  thrown : String → ConnId → Option Thrown

def State.empty : State := ⟨[], fun _ => Doc.empty, fun _ _ => none, fun _ _ => none⟩

def State.setDoc (s : State) (docId : String) (d : Doc) : State :=
  { s with
    docs := Function.update s.docs docId d
    keys :=
      if d.entry.isNone then s.keys.filter (· ≠ docId)
      else if docId ∈ s.keys then s.keys
      else s.keys ++ [docId] }

def State.setRejected (s : State) (docId : String) (r : RoomId) (error : Thrown) : State :=
  { s with
    rejected := Function.update s.rejected docId
      (Function.update (s.rejected docId) r (some error)) }

def State.setThrown (s : State) (docId : String) (c : ConnId) (error : Thrown) : State :=
  { s with
    thrown := Function.update s.thrown docId
      (Function.update (s.thrown docId) c (some error)) }

/-- The promise of a call of `createRoom`. -/
def promise (s : State) (docId : String) (r : RoomId) : Promise (Option RoomId) :=
  match s.rejected docId r with
  | some error => .rejected error
  | none =>
    match (s.docs docId).creation r with
    | .ready => .fulfilled (some r)
    | .absent => .fulfilled none
    | _ => .pending

/-- `rooms.values()`. -/
def values (s : State) : List (Promise (Option (String × RoomId))) :=
  s.keys.filterMap fun docId => (s.docs docId).entry.map fun r =>
    (promise s docId r).map fun room => room.map (docId, ·)

def allRooms (s : State) : Promise (List (String × RoomId)) :=
  (Promise.all (values s)).map List.reduceOption

inductive Event
  /-- A turn of `joinRoom`, `leaveRoom` or a final write. -/
  | turn (docId : String) (e : Rooms.Event)
  /-- `createRoom` ends, with these outcomes of its calls. -/
  | create (docId : String) (r : RoomId) (calls : WsServer.CreateCalls)
  /-- The await of a rejected promise throws. -/
  | throws (docId : String) (c : ConnId)

variable {δ : Type}

def step (p : WsServer.Platform δ) (docBusEnabled : Bool) (s : State) : Event → Option State
  | .turn _ (.create ..) => none
  | .turn docId e => (Rooms.step docBusEnabled (s.docs docId) e).map (s.setDoc docId)
  | .create docId r calls =>
    if s.rejected docId r = none ∧ (s.docs docId).creation r = .building then
      match WsServer.createRoom p calls with
      | .ok room =>
        (Rooms.step docBusEnabled (s.docs docId) (.create r room.isSome)).map (s.setDoc docId)
      | .error error => some (s.setRejected docId r error)
    else none
  | .throws docId c =>
    if s.thrown docId c = none then
      match (s.docs docId).conn c with
      | .awaiting r | .leaving r => (s.rejected docId r).map (s.setThrown docId c)
      | _ => none
    else none

/-- What a failed creation leaves of a document. -/
structure Wedged (p : WsServer.Platform δ) (docBusEnabled : Bool) (s : State) (docId : String)
    (r : RoomId) (error : Thrown) : Prop where
  /-- The rejected promise is registered. -/
  entry : docId ∈ s.keys ∧ (s.docs docId).entry = some r ∧ promise s docId r = .rejected error
  /-- `createRoom` has not been called again. -/
  calls : (s.docs docId).next = r + 1
  /-- Nobody is in a room of the document. -/
  empty : ∀ c k, ¬ ((s.docs docId).conn c).Holds k
  /-- A join awaits the rejected promise and throws. -/
  join : ∀ c, (s.docs docId).conn c = .idle → s.thrown docId c = none →
    ∃ t, run (step p docBusEnabled) s [.turn docId (.join c), .throws docId c] = some t ∧
      t.thrown docId c = some error ∧ (t.docs docId).next = (s.docs docId).next
  allRooms : ∃ other, allRooms s = .rejected other

/-! ## Promise.all -/

theorem all_rejected {α : Type} {promises : List (Promise α)} {error : Thrown}
    (h : .rejected error ∈ promises) : ∃ other, Promise.all promises = .rejected other := by
  induction promises with
  | nil => cases h
  | cons q promises ih =>
      cases q with
      | rejected other => exact ⟨other, rfl⟩
      | pending =>
          obtain ⟨other, hother⟩ := ih (List.mem_of_ne_of_mem (by simp) h)
          exact ⟨other, by rw [Promise.all, hother]⟩
      | fulfilled value =>
          obtain ⟨other, hother⟩ := ih (List.mem_of_ne_of_mem (by simp) h)
          exact ⟨other, by rw [Promise.all, hother, Promise.map]⟩

/-! ## The invariant -/

section Inv

variable {docBusEnabled : Bool} {p : WsServer.Platform δ} {s t : State} {e : Event}

/-- The keys are those of the registered promises, and a rejected one never resolves. -/
structure Inv (docBusEnabled : Bool) (s : State) : Prop where
  docs : ∀ docId, Rooms.Inv docBusEnabled (s.docs docId)
  keys : ∀ docId, docId ∈ s.keys ↔ (s.docs docId).entry ≠ none
  rejected : ∀ docId r error, s.rejected docId r = some error →
    (s.docs docId).creation r = .building

theorem inv_init : Inv docBusEnabled State.empty where
  docs _ := inv_empty docBusEnabled
  keys _ := by simp [State.empty, Doc.empty]
  rejected _ _ _ h := by cases h

theorem joinRoom_building {d : Doc} {r : RoomId} {c : ConnId} (hd : Rooms.Inv docBusEnabled d)
    (hr : d.creation r = .building) : (joinRoom d c).creation r = .building := by
  unfold joinRoom
  cases d.entry with
  | some pending => exact hr
  | none =>
      have hne : r ≠ d.next := by
        rintro rfl
        rw [(hd.unborn d.next le_rfl).1] at hr
        cases hr
      simpa [createRoom, Doc.setConn, Doc.setCreation, hne] using hr

theorem building_step {d d' : Doc} {event : Rooms.Event} {r : RoomId}
    (hd : Rooms.Inv docBusEnabled d) (hr : d.creation r = .building)
    (hevent : ∀ found, event ≠ .create r found)
    (h : Rooms.step docBusEnabled d event = some d') : d'.creation r = .building := by
  cases took h with
  | join | rejoin => exact joinRoom_building hd hr
  | @proceed r' w hw _ =>
      by_cases hown : r = r'
      · subst hown
        simp [Doc.setCreation]
      · simpa [Doc.setCreation, hown] using hr
  | @create r' hr' found =>
      have hown : r ≠ r' := by
        rintro rfl
        exact hevent found rfl
      simpa [Doc.setCreation, hown] using hr
  | refuse hc _ => simpa [Doc.setConn] using hr
  | @attach _ r' hc =>
      have hrest := (attachRoomObservers_rest docBusEnabled d r').1
      simpa [Doc.setConn, hrest] using hr
  | @leave c _ hc =>
      obtain ⟨conn, hleave, -⟩ := leaveRoom_eq d c
      rw [hleave]
      exact hr
  | leaveLast hc _ _ => simpa [evict, Doc.setConn, Doc.setRoom] using hr
  | _ => exact hr

theorem keys_setDoc (s : State) (docId : String) (d : Doc) (other : String)
    (hkeys : ∀ k, k ∈ s.keys ↔ (s.docs k).entry ≠ none) :
    other ∈ (s.setDoc docId d).keys ↔ ((s.setDoc docId d).docs other).entry ≠ none := by
  by_cases hown : other = docId
  · subst hown
    cases hentry : d.entry with
    | none => simp [State.setDoc, hentry]
    | some r =>
        by_cases hin : other ∈ s.keys
        · simp [State.setDoc, hentry, hin]
        · simp [State.setDoc, hentry, hin]
  · have hdocs : (s.setDoc docId d).docs other = s.docs other := Function.update_of_ne hown _ _
    rw [hdocs, ← hkeys other]
    simp only [State.setDoc]
    split_ifs <;> simp [hown]

theorem inv_setDoc (hs : Inv docBusEnabled s) {docId : String} {d : Doc}
    (hd : Rooms.Inv docBusEnabled d)
    (hrejected : ∀ r error, s.rejected docId r = some error → d.creation r = .building) :
    Inv docBusEnabled (s.setDoc docId d) where
  docs other := by
    by_cases hown : other = docId
    · subst hown
      simpa [State.setDoc] using hd
    · simpa [State.setDoc, hown] using hs.docs other
  keys other := keys_setDoc s docId d other hs.keys
  rejected other r error h := by
    by_cases hown : other = docId
    · subst hown
      simpa [State.setDoc] using hrejected r error h
    · simpa [State.setDoc, hown] using hs.rejected other r error h

theorem rejected_setRejected (s : State) (docId : String) (r : RoomId) (error : Thrown) :
    (s.setRejected docId r error).rejected docId r = some error := by
  simp [State.setRejected]

theorem rejected_setRejected_of_ne {docId other : String} {r k : RoomId} (error : Thrown)
    (hne : ¬ (other = docId ∧ k = r)) :
    (s.setRejected docId r error).rejected other k = s.rejected other k := by
  by_cases hdoc : other = docId
  · subst hdoc
    have hk : k ≠ r := fun hk => hne ⟨rfl, hk⟩
    simp [State.setRejected, hk]
  · simp [State.setRejected, hdoc]

theorem step_cases (h : step p docBusEnabled s e = some t) :
    (∃ docId event d, Rooms.step docBusEnabled (s.docs docId) event = some d ∧
      (∀ r found, event = .create r found → s.rejected docId r = none) ∧ t = s.setDoc docId d) ∨
    (∃ docId r error, s.rejected docId r = none ∧ (s.docs docId).creation r = .building ∧
      t = s.setRejected docId r error) ∨
    ∃ docId c error, t = s.setThrown docId c error := by
  cases e with
  | turn docId event =>
      left
      cases event
      case create => cases h
      all_goals
        obtain ⟨d, hd, rfl⟩ := Option.map_eq_some_iff.mp h
        exact ⟨docId, _, d, hd, by rintro r found ⟨⟩, rfl⟩
  | create docId r calls =>
      simp only [step, Option.ite_none_right_eq_some] at h
      obtain ⟨⟨hnone, hbuilding⟩, h⟩ := h
      cases hcalls : WsServer.createRoom p calls with
      | ok room =>
          simp only [hcalls, Option.map_eq_some_iff] at h
          obtain ⟨d, hd, rfl⟩ := h
          refine .inl ⟨docId, _, d, hd, ?_, rfl⟩
          rintro _ _ ⟨⟩
          exact hnone
      | error error =>
          simp only [hcalls, Option.some.injEq] at h
          exact .inr (.inl ⟨docId, r, error, hnone, hbuilding, h.symm⟩)
  | throws docId c =>
      simp only [step, Option.ite_none_right_eq_some] at h
      obtain ⟨-, h⟩ := h
      cases hconn : (s.docs docId).conn c <;>
        simp only [hconn, Option.map_eq_some_iff, reduceCtorEq] at h
      all_goals
        obtain ⟨error, -, rfl⟩ := h
        exact .inr (.inr ⟨docId, c, error, rfl⟩)

/-- Rejected promises stay rejected. -/
theorem rejected_step {docId : String} {r : RoomId} {error : Thrown}
    (hrejected : s.rejected docId r = some error) (h : step p docBusEnabled s e = some t) :
    t.rejected docId r = some error := by
  rcases step_cases h with ⟨other, event, d, -, -, rfl⟩ | ⟨other, k, error', hnone, -, rfl⟩ |
    ⟨other, c, error', rfl⟩
  · exact hrejected
  · rw [rejected_setRejected_of_ne error' ?_, hrejected]
    rintro ⟨rfl, rfl⟩
    rw [hrejected] at hnone
    cases hnone
  · exact hrejected

theorem inv_step (hs : Inv docBusEnabled s) (h : step p docBusEnabled s e = some t) :
    Inv docBusEnabled t := by
  rcases step_cases h with ⟨docId, event, d, hd, hcreate, rfl⟩ |
    ⟨docId, r, error, -, hbuilding, rfl⟩ | ⟨docId, c, error, rfl⟩
  · refine inv_setDoc hs (Rooms.inv_step (hs.docs docId) hd) fun r error hrejected => ?_
    refine building_step (hs.docs docId) (hs.rejected docId r error hrejected) ?_ hd
    intro found hevent
    rw [hcreate r found hevent] at hrejected
    cases hrejected
  · refine ⟨hs.docs, hs.keys, fun other k error' hrejected => ?_⟩
    by_cases hown : other = docId ∧ k = r
    · rw [hown.1, hown.2]
      exact hbuilding
    · rw [rejected_setRejected_of_ne error hown] at hrejected
      exact hs.rejected other k error' hrejected
  · exact ⟨hs.docs, hs.keys, hs.rejected⟩

/-! ## The registry with a rejected promise -/

theorem wedged_of_rejected (hs : Inv docBusEnabled s) {docId : String} {r : RoomId}
    {error : Thrown} (hrejected : s.rejected docId r = some error) :
    Wedged p docBusEnabled s docId r error := by
  have hdoc := hs.docs docId
  have hbuilding := hs.rejected docId r error hrejected
  have hentry := entry_of_building hdoc hbuilding
  have hkey : docId ∈ s.keys := (hs.keys docId).mpr (by simp [hentry])
  have hpromise : promise s docId r = .rejected error := by simp [promise, hrejected]
  refine ⟨⟨hkey, hentry, hpromise⟩, hdoc.entry_newest r hentry, ?_, ?_, ?_⟩
  · intro c k hholds
    obtain ⟨hk, hready⟩ := entry_of_holds hdoc hholds
    rw [hentry, Option.some.injEq] at hk
    rw [← hk, hbuilding] at hready
    cases hready
  · intro c hidle hcalm
    have hjoin : joinRoom (s.docs docId) c = (s.docs docId).setConn c (.awaiting r) := by
      rw [joinRoom, hentry]
    have hfirst : step p docBusEnabled s (.turn docId (.join c)) =
        some (s.setDoc docId ((s.docs docId).setConn c (.awaiting r))) := by
      simp [step, Rooms.step, hidle, hjoin]
    have hsecond : step p docBusEnabled (s.setDoc docId ((s.docs docId).setConn c (.awaiting r)))
        (.throws docId c) = some ((s.setDoc docId ((s.docs docId).setConn c
          (.awaiting r))).setThrown docId c error) := by
      simp [step, State.setDoc, Doc.setConn, hcalm, hrejected]
    refine ⟨_, run_cons_eq_some.mpr ⟨_, hfirst, run_cons_eq_some.mpr ⟨_, hsecond, rfl⟩⟩, ?_, ?_⟩
    · simp [State.setThrown]
    · simp [State.setThrown, State.setDoc, Doc.setConn]
  · have hvalue : Promise.rejected error ∈ values s := by
      refine List.mem_filterMap.mpr ⟨docId, hkey, ?_⟩
      simp [hentry, hpromise, Promise.map]
    obtain ⟨other, hother⟩ := all_rejected hvalue
    exact ⟨other, by rw [allRooms, hother, Promise.map]⟩

end Inv

/-! ## Every run -/

/-- After a creation that failed, in every later state the document is wedged. -/
theorem wedged_run (p : WsServer.Platform δ) (docBusEnabled : Bool) (pre post : List Event)
    {docId : String} {r : RoomId} (calls : WsServer.CreateCalls) {error : Thrown} {t : State}
    (hfails : WsServer.createRoom p calls = .error error)
    (h : run (step p docBusEnabled) State.empty (pre ++ .create docId r calls :: post) = some t) :
    Wedged p docBusEnabled t docId r error := by
  obtain ⟨s, hpre, hrest⟩ := run_append_eq_some.mp h
  obtain ⟨s', hcreate, hpost⟩ := run_cons_eq_some.mp hrest
  have hrejected : s'.rejected docId r = some error := by
    simp only [step, hfails, Option.ite_none_right_eq_some, Option.some.injEq] at hcreate
    rw [← hcreate.2]
    exact rejected_setRejected s docId r error
  refine wedged_of_rejected (run_invariant (fun _ _ _ => inv_step) inv_init h) ?_
  exact run_invariant (P := fun u => u.rejected docId r = some error)
    (fun _ _ _ => rejected_step) hrejected hpost

/-- A platform whose documents are their text. -/
def textPlatform : WsServer.Platform String where
  newURL _ := .error "TypeError: Invalid URL"
  handleUpgrade _ := false
  jwtVerify _ := .error "JWSInvalid: Invalid Compact JWS"
  webOrigin := "http://localhost:5173"
  applyUpdate ydoc _ := .ok ydoc
  emptyDoc := ""
  seed content := content
  stringify _ := .ok "{}"

/-- The file lookup of a `createRoom` fails. -/
def lookupFails : WsServer.CreateCalls where
  findFirst := .error "PrismaClientInitializationError: Can't reach database server"
  findSnapshot := .ok none
  findUpdates := .ok []
  writeSnapshot := .ok ()

theorem wedged_run_two_waiting :
    ∃ t, run (step textPlatform true) State.empty ([.turn "p:f" (.join 0), .turn "p:f" (.join 1)] ++
        .create "p:f" 0 lookupFails :: [.throws "p:f" 0, .throws "p:f" 1]) = some t ∧
      Wedged textPlatform true t "p:f" 0
        "PrismaClientInitializationError: Can't reach database server" :=
  ⟨_, rfl, wedged_run textPlatform true [.turn "p:f" (.join 0), .turn "p:f" (.join 1)]
    [.throws "p:f" 0, .throws "p:f" 1] lookupFails rfl rfl⟩

/-- Both connections that waited have got the error; a third one gets it too, without a call of
`createRoom`, and `allRooms` rejects. -/
theorem failed_lookup_stays :
    ∃ t, run (step textPlatform true) State.empty [.turn "p:f" (.join 0), .turn "p:f" (.join 1),
        .create "p:f" 0 lookupFails, .throws "p:f" 0, .throws "p:f" 1, .turn "p:f" (.join 2),
        .throws "p:f" 2] = some t ∧
      t.keys = ["p:f"] ∧ (t.docs "p:f").entry = some 0 ∧ (t.docs "p:f").next = 1 ∧
      t.thrown "p:f" 2 = some "PrismaClientInitializationError: Can't reach database server" ∧
      allRooms t = .rejected "PrismaClientInitializationError: Can't reach database server" :=
  ⟨_, rfl, rfl, rfl, rfl, rfl, rfl⟩

end CollabIDE.Collab.FailedRooms
