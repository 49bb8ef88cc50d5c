import CollabIDE.Collab.RoomsInvariant
import CollabIDE.Redis.DocBus
/-!
# The room registry of a process

All documents of one process share the doc bus.  A process steps one document
at a time; the bus sees a subscription when a room's observers are attached and
an end of it when a room is evicted.  Seen from one document the process is the
machine of that document, with the bus handler on its channel for `handler`.
-/

namespace CollabIDE.Collab.Registry

open CollabIDE.Lib.Machine CollabIDE.Collab.Rooms CollabIDE.Redis.DocBus

structure Process where
  docs : String → Doc
  /-- A handler is the callback that applies frames to one room. -/
  bus : Bus RoomId

def Process.empty : Process := ⟨fun _ => Doc.empty, Bus.closed⟩

/-- One document of the process, with its handler on the bus. -/
def view (docId : String) (p : Process) : Doc :=
  { p.docs docId with handler := p.bus.handlers (docChannel docId) }

/-- The call into the bus a step makes. -/
inductive BusCall
  | none
  | subscribe (r : RoomId)
  | unsubscribe

/-- `attachRoomObservers` subscribes once for each room; the turn that evicts a
room unsubscribes. -/
def busCall (docBusEnabled : Bool) (d : Doc) : Event → BusCall
  | .attach c =>
    match d.conn c with
    | .joined r => if (d.room r).observed = false ∧ docBusEnabled then .subscribe r else .none
    | _ => .none
  | .resumeLeave c => if (evicted d c).isSome then .unsubscribe else .none
  | _ => .none

def BusCall.apply (docId : String) (bus : Bus RoomId) : BusCall → Bus RoomId
  | .none => bus
  | .subscribe r => subscribeDoc bus docId r
  | .unsubscribe => unsubscribeDoc bus docId

/-- One step of one document, with its effect on the bus. -/
def step (docBusEnabled : Bool) (p : Process) (e : String × Event) : Option Process :=
  (Rooms.step docBusEnabled (view e.1 p) e.2).map fun d =>
    { docs := Function.update p.docs e.1 d
      bus := (busCall docBusEnabled (p.docs e.1) e.2).apply e.1 p.bus }

theorem connected_apply {bus : Bus RoomId} (hbus : Connected bus) (docId : String)
    (call : BusCall) : Connected (call.apply docId bus) := by
  cases call with
  | none => exact hbus
  | subscribe r => exact connected_subscribeDoc hbus docId r
  | unsubscribe => exact connected_unsubscribeDoc hbus docId

theorem connected_step {docBusEnabled : Bool} {p p' : Process} {e : String × Event}
    (hp : Connected p.bus) (h : step docBusEnabled p e = some p') : Connected p'.bus := by
  simp only [step, Option.map_eq_some_iff] at h
  obtain ⟨d, -, rfl⟩ := h
  exact connected_apply hp _ _

/-- What a call does to the handler of its document. -/
def BusCall.handler (handler : Option RoomId) : BusCall → Option RoomId
  | .none => handler
  | .subscribe r => some r
  | .unsubscribe => Option.none

theorem apply_handlers {bus : Bus RoomId} (hbus : Connected bus) (docId : String)
    (call : BusCall) :
    (call.apply docId bus).handlers = Function.update bus.handlers (docChannel docId)
      (call.handler (bus.handlers (docChannel docId))) := by
  cases call with
  | none => exact (Function.update_eq_self _ _).symm
  | subscribe r => exact subscribeDoc_handlers bus docId r
  | unsubscribe => exact unsubscribeDoc_handlers hbus docId

/-- A document's machine follows the calls it makes into the bus. -/
theorem step_handler {docBusEnabled : Bool} {d d' : Doc} {e : Event}
    (h : Rooms.step docBusEnabled d e = some d') :
    d'.handler = (busCall docBusEnabled d e).handler d.handler := by
  cases took h with
  | join | rejoin => exact joinRoom_handler d _
  | @refuse c r hc hr => exact deleteEntry_handler d r
  | @attach c r hc =>
      simp only [busCall, hc, attachRoomObservers, Doc.setConn]
      cases (d.room r).observed <;> cases docBusEnabled <;> rfl
  | @leave c r hc =>
      obtain ⟨conn, hleave, -⟩ := leaveRoom_eq d c
      rw [hleave]
      rfl
  | leaveAbsent hc hr => simp [busCall, evicted, hc, hr, BusCall.handler, Doc.setConn]
  | leaveShared hc hr hne =>
      simp [busCall, evicted, hc, hne, BusCall.handler, Doc.setConn, Doc.setRoom]
  | leaveLast hc hr hlast =>
      simp [busCall, evicted, hc, hr, hlast, BusCall.handler, Doc.setConn, evict]
  | _ => rfl

theorem view_step_other {docBusEnabled : Bool} {p p' : Process} {e : String × Event}
    {docId : String} (hp : Connected p.bus) (hne : e.1 ≠ docId)
    (h : step docBusEnabled p e = some p') : view docId p' = view docId p := by
  simp only [step, Option.map_eq_some_iff] at h
  obtain ⟨d, -, rfl⟩ := h
  have hchannel : docChannel docId ≠ docChannel e.1 := fun heq =>
    hne (docChannel_injective heq).symm
  simp only [view, apply_handlers hp, Function.update_of_ne hchannel,
    Function.update_of_ne hne.symm]

theorem view_step_own {docBusEnabled : Bool} {p p' : Process} {e : String × Event}
    (hp : Connected p.bus) (h : step docBusEnabled p e = some p') :
    Rooms.step docBusEnabled (view e.1 p) e.2 = some (view e.1 p') := by
  simp only [step, Option.map_eq_some_iff] at h
  obtain ⟨d, hd, rfl⟩ := h
  have hhandler : d.handler = (busCall docBusEnabled (p.docs e.1) e.2).handler
      (p.bus.handlers (docChannel e.1)) := step_handler hd
  rw [hd]
  simp only [view, apply_handlers hp, Function.update_self, ← hhandler]

/-- Every document of a process keeps the invariant of its machine. -/
def AllInv (docBusEnabled : Bool) (p : Process) : Prop :=
  Connected p.bus ∧ ∀ docId, Inv docBusEnabled (view docId p)

theorem allInv_step {docBusEnabled : Bool} {p p' : Process} {e : String × Event}
    (hp : AllInv docBusEnabled p) (h : step docBusEnabled p e = some p') :
    AllInv docBusEnabled p' := by
  refine ⟨connected_step hp.1 h, fun docId => ?_⟩
  by_cases hid : e.1 = docId
  · subst hid
    exact inv_step (hp.2 e.1) (view_step_own hp.1 h)
  · rw [view_step_other hp.1 hid h]
    exact hp.2 docId

theorem allInv_run {docBusEnabled : Bool} {p : Process} {events : List (String × Event)}
    (h : run (step docBusEnabled) Process.empty events = some p) : AllInv docBusEnabled p := by
  have hinit : AllInv docBusEnabled Process.empty :=
    ⟨connected_closed, fun _ => inv_empty docBusEnabled⟩
  exact run_invariant (fun _ _ _ => allInv_step) hinit h

/-- The registry and the bus agree at every moment: one room per document is
registered or usable; a connection that joined and has not left is in that
room, which is the registered one and not destroyed; the bus has a handler
exactly for an observed registered room, and it is that room's; and once every
connection is out, nothing is registered. -/
theorem registry_and_bus_agree (docBusEnabled : Bool) (events : List (String × Event))
    (p : Process) (h : run (step docBusEnabled) Process.empty events = some p) (docId : String) :
    (∀ r r', (view docId p).entry = some r ∨ Usable (view docId p) r →
      (view docId p).entry = some r' ∨ Usable (view docId p) r' → r = r') ∧
    (∀ c r, (view docId p).conn c = .joined r ∨ (view docId p).conn c = .inside r →
      c ∈ ((view docId p).room r).conns ∧ (view docId p).entry = some r ∧
        ((view docId p).room r).destroyed = false) ∧
    (∀ r, p.bus.handlers (docChannel docId) = some r ↔ docBusEnabled = true ∧
      (view docId p).entry = some r ∧ ((view docId p).room r).observed = true) ∧
    ((∀ c, (view docId p).conn c = .idle ∨ (view docId p).conn c = .left ∨
      (view docId p).conn c = .refused) → (view docId p).entry = none) := by
  have hs : Inv docBusEnabled (view docId p) := (allInv_run h).2 docId
  refine ⟨?_, ?_, hs.handler_iff, ?_⟩
  · intro r r' hr hr'
    have hentry : ∀ k, (view docId p).entry = some k ∨ Usable (view docId p) k →
        (view docId p).entry = some k := by
      rintro k (hk | hk)
      · exact hk
      · exact hs.usable_entry k hk
    exact Option.some.inj ((hentry r hr).symm.trans (hentry r' hr'))
  · intro c r hc
    have hin : c ∈ ((view docId p).room r).conns := by
      rw [hs.conns_iff]
      rcases hc with hc | hc
      · exact Or.inl hc
      · exact Or.inr (Or.inl hc)
    have hentry := (hs.conns_entry r c hin).1
    refine ⟨hin, hentry, Bool.eq_false_iff.mpr fun hdestroyed => ?_⟩
    have hsettled := hs.destroyed_settled r hdestroyed
    simp [hs.entry_kept r hentry] at hsettled
  · intro hout
    rw [Option.eq_none_iff_forall_ne_some]
    intro r hr
    rcases hs.held r hr with ⟨c, hc⟩ | ⟨c, hc⟩
    · rcases hout c with h | h | h <;> simp [hc] at h
    · rw [hs.conns_iff] at hc
      rcases hout c with h | h | h <;> simp [h, Conn.Holds] at hc

/-- One connection opens a document and leaves it; a second one joins while the
first room is still being written. -/
def rejoinDuringWrite : List (String × Event) :=
  [.join 0, .create 0 true, .resumeJoin 0, .attach 0, .leave 0, .resumeLeave 0, .join 1,
    .writeSettles 0, .proceed 1, .finishLeave 0, .create 1 true, .resumeJoin 1,
    .attach 1].map ("project:file", ·)

theorem registry_and_bus_agree_rejoin :
    (((run (step true) Process.empty rejoinDuringWrite).getD Process.empty).bus.handlers
        (docChannel "project:file") = some 1 ↔ true = true ∧
      (view "project:file" ((run (step true) Process.empty rejoinDuringWrite).getD
        Process.empty)).entry = some 1 ∧
      ((view "project:file" ((run (step true) Process.empty rejoinDuringWrite).getD
        Process.empty)).room 1).observed = true) :=
  (registry_and_bus_agree true rejoinDuringWrite _ rfl "project:file").2.2.1 1

end CollabIDE.Collab.Registry
