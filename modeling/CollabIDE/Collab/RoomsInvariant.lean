import CollabIDE.Collab.Rooms
/-!
# The registry invariant of one document

What every interleaving of joins, creations, attachments, leaves and final
writes keeps.  The registered promise is the only one whose room can still be
joined; a connection is counted in a room exactly while it holds it, and only
the registered room is held; the one pending write belongs to the last evicted
room, and nothing is created past it.
-/

namespace CollabIDE.Collab.Rooms

open CollabIDE.Lib.Machine

/-! ## What a step does -/

/-- The steps of a document, one constructor for each way a turn can go. -/
inductive Took (docBusEnabled : Bool) (d : Doc) : Event → Doc → Prop
  | join {c : ConnId} (hc : d.conn c = .idle) : Took docBusEnabled d (.join c) (joinRoom d c)
  | proceed {r w : RoomId} (hr : d.creation r = .waiting w) (hw : d.finalWrite w = .settled) :
      Took docBusEnabled d (.proceed r) (d.setCreation r .building)
  | create {r : RoomId} (hr : d.creation r = .building) (found : Bool) :
      Took docBusEnabled d (.create r found)
        (d.setCreation r (if found then .ready else .absent))
  | refuse {c : ConnId} {r : RoomId} (hc : d.conn c = .awaiting r) (hr : d.creation r = .absent) :
      Took docBusEnabled d (.resumeJoin c) ((d.deleteEntry r).setConn c .refused)
  | enter {c : ConnId} {r : RoomId} (hc : d.conn c = .awaiting r) (hr : d.creation r = .ready)
      (hentry : d.entry = some r) :
      Took docBusEnabled d (.resumeJoin c)
        ((d.setRoom r ((d.room r).add c)).setConn c (.joined r))
  | rejoin {c : ConnId} {r : RoomId} (hc : d.conn c = .awaiting r) (hr : d.creation r = .ready)
      (hentry : d.entry ≠ some r) : Took docBusEnabled d (.resumeJoin c) (joinRoom d c)
  | attach {c : ConnId} {r : RoomId} (hc : d.conn c = .joined r) :
      Took docBusEnabled d (.attach c)
        ((attachRoomObservers docBusEnabled d r).setConn c (.inside r))
  | leave {c : ConnId} {r : RoomId} (hc : d.conn c = .joined r ∨ d.conn c = .inside r) :
      Took docBusEnabled d (.leave c) (leaveRoom d c)
  | leaveAbsent {c : ConnId} {r : RoomId} (hc : d.conn c = .leaving r)
      (hr : d.creation r = .absent) : Took docBusEnabled d (.resumeLeave c) (d.setConn c .left)
  | leaveShared {c : ConnId} {r : RoomId} (hc : d.conn c = .leaving r) (hr : d.creation r = .ready)
      (hne : ((d.room r).delete c).conns.Nonempty) :
      Took docBusEnabled d (.resumeLeave c)
        ((d.setRoom r ((d.room r).delete c)).setConn c .left)
  | leaveLast {c : ConnId} {r : RoomId} (hc : d.conn c = .leaving r) (hr : d.creation r = .ready)
      (hlast : ¬ ((d.room r).delete c).conns.Nonempty) :
      Took docBusEnabled d (.resumeLeave c)
        ((evict (d.setRoom r ((d.room r).delete c)) r).setConn c (.evicting r))
  | writeSettles {r : RoomId} (hr : d.finalWrite r = .pending) :
      Took docBusEnabled d (.writeSettles r) (settleWrite d r)
  | finishLeave {c : ConnId} {r : RoomId} (hc : d.conn c = .evicting r)
      (hr : d.finalWrite r = .settled) : Took docBusEnabled d (.finishLeave c) (finishLeave d c r)

variable {docBusEnabled : Bool} {d d' : Doc} {r w : RoomId} {c : ConnId}

theorem took_resumeJoin (hc : d.conn c = .awaiting r) (h : resumeJoin d c r = some d') :
    Took docBusEnabled d (.resumeJoin c) d' := by
  cases hr : d.creation r with
  | absent =>
      simp only [resumeJoin, hr, Option.some.injEq] at h
      exact h ▸ .refuse hc hr
  | ready =>
      by_cases hentry : d.entry = some r
      · simp only [resumeJoin, hr, ne_eq, hentry, not_true_eq_false, if_false,
          Option.some.injEq] at h
        exact h ▸ .enter hc hr hentry
      · simp only [resumeJoin, hr, ne_eq, hentry, not_false_eq_true, if_true,
          Option.some.injEq] at h
        exact h ▸ .rejoin hc hr hentry
  | _ => simp [resumeJoin, hr] at h

theorem took_resumeLeave (hc : d.conn c = .leaving r) (h : resumeLeave d c r = some d') :
    Took docBusEnabled d (.resumeLeave c) d' := by
  have hroom : (d.setRoom r ((d.room r).delete c)).room r = (d.room r).delete c :=
    Function.update_self _ _ _
  cases hr : d.creation r with
  | absent =>
      simp only [resumeLeave, hr, Option.some.injEq] at h
      exact h ▸ .leaveAbsent hc hr
  | ready =>
      simp only [resumeLeave, hr, hroom] at h
      by_cases hne : ((d.room r).delete c).conns.Nonempty
      · rw [if_pos hne, Option.some.injEq] at h
        exact h ▸ .leaveShared hc hr hne
      · rw [if_neg hne, Option.some.injEq] at h
        exact h ▸ .leaveLast hc hr hne
  | _ => simp [resumeLeave, hr] at h

theorem took {e : Event} (h : step docBusEnabled d e = some d') : Took docBusEnabled d e d' := by
  cases e with
  | join c =>
      simp only [step, Option.ite_none_right_eq_some, Option.some.injEq] at h
      exact h.2 ▸ .join h.1
  | proceed r =>
      cases hr : d.creation r with
      | waiting w =>
          simp only [step, hr, Option.ite_none_right_eq_some, Option.some.injEq] at h
          exact h.2 ▸ .proceed hr h.1
      | _ => simp [step, hr] at h
  | create r found =>
      simp only [step, Option.ite_none_right_eq_some, Option.some.injEq] at h
      exact h.2 ▸ .create h.1 found
  | resumeJoin c =>
      cases hc : d.conn c with
      | awaiting r =>
          simp only [step, hc] at h
          exact took_resumeJoin hc h
      | _ => simp [step, hc] at h
  | attach c =>
      cases hc : d.conn c with
      | joined r =>
          simp only [step, hc, Option.some.injEq] at h
          exact h ▸ .attach hc
      | _ => simp [step, hc] at h
  | leave c =>
      cases hc : d.conn c with
      | joined r =>
          simp only [step, hc, Option.some.injEq] at h
          exact h ▸ .leave (Or.inl hc)
      | inside r =>
          simp only [step, hc, Option.some.injEq] at h
          exact h ▸ .leave (Or.inr hc)
      | _ => simp [step, hc] at h
  | resumeLeave c =>
      cases hc : d.conn c with
      | leaving r =>
          simp only [step, hc] at h
          exact took_resumeLeave hc h
      | _ => simp [step, hc] at h
  | writeSettles r =>
      simp only [step, Option.ite_none_right_eq_some, Option.some.injEq] at h
      exact h.2 ▸ .writeSettles h.1
  | finishLeave c =>
      cases hc : d.conn c with
      | evicting r =>
          simp only [step, hc, Option.ite_none_right_eq_some, Option.some.injEq] at h
          exact h.2 ▸ .finishLeave hc h.1
      | _ => simp [step, hc] at h

/-! ## What the operations leave alone -/

@[simp] theorem joinRoom_finalWrite (d : Doc) (c : ConnId) :
    (joinRoom d c).finalWrite = d.finalWrite := by
  unfold joinRoom
  cases d.entry <;> rfl

@[simp] theorem joinRoom_handler (d : Doc) (c : ConnId) : (joinRoom d c).handler = d.handler := by
  unfold joinRoom
  cases d.entry <;> rfl

theorem joinRoom_conn (d : Doc) (c : ConnId) :
    ∃ r, (joinRoom d c).conn = Function.update d.conn c (.awaiting r) := by
  unfold joinRoom
  cases d.entry with
  | none => exact ⟨d.next, rfl⟩
  | some pending => exact ⟨pending, rfl⟩

@[simp] theorem deleteEntry_creation (d : Doc) (r : RoomId) :
    (d.deleteEntry r).creation = d.creation := by
  unfold Doc.deleteEntry
  split <;> rfl

@[simp] theorem deleteEntry_finalWrite (d : Doc) (r : RoomId) :
    (d.deleteEntry r).finalWrite = d.finalWrite := by
  unfold Doc.deleteEntry
  split <;> rfl

@[simp] theorem deleteEntry_handler (d : Doc) (r : RoomId) :
    (d.deleteEntry r).handler = d.handler := by
  unfold Doc.deleteEntry
  split <;> rfl

@[simp] theorem deleteEntry_conn (d : Doc) (r : RoomId) : (d.deleteEntry r).conn = d.conn := by
  unfold Doc.deleteEntry
  split <;> rfl

theorem attachRoomObservers_rest (docBusEnabled : Bool) (d : Doc) (r : RoomId) :
    (attachRoomObservers docBusEnabled d r).creation = d.creation ∧
      (attachRoomObservers docBusEnabled d r).finalWrite = d.finalWrite ∧
      (attachRoomObservers docBusEnabled d r).conn = d.conn := by
  unfold attachRoomObservers
  split
  · exact ⟨rfl, rfl, rfl⟩
  · cases docBusEnabled <;> exact ⟨rfl, rfl, rfl⟩

theorem leaveRoom_eq (d : Doc) (c : ConnId) :
    ∃ conn, leaveRoom d c = d.setConn c conn ∧ (conn = .left ∨ ∃ r, conn = .leaving r) := by
  unfold leaveRoom
  cases d.entry with
  | none => exact ⟨.left, rfl, Or.inl rfl⟩
  | some pending => exact ⟨.leaving pending, rfl, Or.inr ⟨pending, rfl⟩⟩

/-! ## The invariant -/

/-- A room that can still be joined: pending or resolved, and not evicted. -/
def Usable (d : Doc) (r : RoomId) : Prop :=
  d.creation r ≠ .unborn ∧ d.creation r ≠ .absent ∧ d.finalWrite r = .none

/-- The connection's join returned this room and its leave has not resumed. -/
def Conn.Holds (conn : Conn) (r : RoomId) : Prop :=
  conn = .joined r ∨ conn = .inside r ∨ conn = .leaving r

structure Inv (docBusEnabled : Bool) (d : Doc) : Prop where
  unborn : ∀ r, d.next ≤ r →
    d.creation r = .unborn ∧ d.finalWrite r = .none ∧ d.room r = .fresh
  entry_newest : ∀ r, d.entry = some r → d.next = r + 1
  usable_entry : ∀ r, Usable d r → d.entry = some r
  entry_kept : ∀ r, d.entry = some r → d.finalWrite r = .none
  pendingWrite_iff : ∀ r, d.pendingWrite = some r ↔ d.finalWrite r = .pending
  waiting : ∀ r w, d.creation r = .waiting w →
    d.finalWrite w ≠ .none ∧ ∀ p, d.pendingWrite = some p → p = w
  started : ∀ r, d.entry = some r → d.creation r = .building ∨ d.creation r = .ready →
    ∀ p, d.pendingWrite ≠ some p
  conns_iff : ∀ r c, c ∈ (d.room r).conns ↔ (d.conn c).Holds r
  conns_entry : ∀ r c, c ∈ (d.room r).conns → d.entry = some r ∧ d.creation r = .ready
  awaiting_lt : ∀ c r, d.conn c = .awaiting r → r < d.next
  held : ∀ r, d.entry = some r → (∃ c, d.conn c = .awaiting r) ∨ (d.room r).conns.Nonempty
  handler_iff : ∀ r, d.handler = some r ↔
    docBusEnabled = true ∧ d.entry = some r ∧ (d.room r).observed = true
  observed_ready : ∀ r, (d.room r).observed = true → d.creation r = .ready
  written_ready : ∀ r, d.finalWrite r ≠ .none → d.creation r = .ready
  destroyed_settled : ∀ r, (d.room r).destroyed = true → d.finalWrite r = .settled
  evicting_written : ∀ c r, d.conn c = .evicting r → d.finalWrite r ≠ .none

theorem Inv.entry_lt (hs : Inv docBusEnabled d) (r : RoomId)
    (hr : d.entry = some r) : r < d.next := by
  rw [hs.entry_newest r hr]
  exact Nat.lt_succ_self r

theorem inv_empty (docBusEnabled : Bool) : Inv docBusEnabled Doc.empty := by
  constructor <;> simp [Doc.empty, Room.fresh, Usable, Conn.Holds]

theorem inv_setConn (hs : Inv docBusEnabled d) {conn : Conn}
    (hholds : ∀ r, conn.Holds r ↔ (d.conn c).Holds r)
    (hfrom : ∀ r, d.conn c = .awaiting r → d.entry ≠ some r) (hto : ∀ r, conn ≠ .awaiting r)
    (hevict : ∀ r, conn = .evicting r → d.finalWrite r ≠ .none) :
    Inv docBusEnabled (d.setConn c conn) :=
  { hs with
    conns_iff := by
      intro r k
      have h := hs.conns_iff r k
      simp only [Doc.setConn, Function.update_apply]
      grind
    awaiting_lt := by
      intro k r hk
      have h := hs.awaiting_lt k r
      simp only [Doc.setConn, Function.update_apply] at hk ⊢
      grind
    held := by
      intro r hr
      rcases hs.held r hr with ⟨k, hk⟩ | hne
      · refine Or.inl ⟨k, ?_⟩
        have hkc : k ≠ c := fun heq => hfrom r (heq ▸ hk) hr
        simpa [Doc.setConn, Function.update_apply, hkc] using hk
      · exact Or.inr hne
    evicting_written := by
      intro k r hk
      have h := hs.evicting_written k r
      simp only [Doc.setConn, Function.update_apply] at hk ⊢
      grind }

theorem inv_setRoom (hs : Inv docBusEnabled d) (hlt : r < d.next) {room : Room}
    {handler : Option RoomId} (hconns : room.conns = (d.room r).conns)
    (hobserved : room.observed = true → d.creation r = .ready)
    (hdestroyed : room.destroyed = true → d.finalWrite r = .settled)
    (hhandler : ∀ k, handler = some k ↔ docBusEnabled = true ∧ d.entry = some k ∧
      ((d.setRoom r room).room k).observed = true) :
    Inv docBusEnabled { d.setRoom r room with handler } :=
  { hs with
    unborn := by
      intro k hk
      have hne : k ≠ r := fun heq => absurd hlt (Nat.not_lt_of_le (heq ▸ hk))
      simpa [Doc.setRoom, Function.update_apply, hne] using hs.unborn k hk
    conns_iff := by
      intro k j
      have h := hs.conns_iff k j
      simp only [Doc.setRoom, Function.update_apply]
      grind
    conns_entry := by
      intro k j hj
      have h := hs.conns_entry k j
      simp only [Doc.setRoom, Function.update_apply] at hj ⊢
      grind
    held := by
      intro k hk
      have h := hs.held k hk
      simp only [Doc.setRoom, Function.update_apply]
      grind
    handler_iff := hhandler
    observed_ready := by
      intro k hk
      have h := hs.observed_ready k
      simp only [Doc.setRoom, Function.update_apply] at hk ⊢
      grind
    destroyed_settled := by
      intro k hk
      have h := hs.destroyed_settled k
      simp only [Doc.setRoom, Function.update_apply] at hk ⊢
      grind }

theorem inv_moveConn (hs : Inv docBusEnabled d) (hentry : d.entry = some r)
    (hr : d.creation r = .ready) {room : Room} {conn : Conn}
    (hconns : ∀ j, j ∈ room.conns ↔ if j = c then conn.Holds r else j ∈ (d.room r).conns)
    (hto : ∀ k, k ≠ r → ¬ conn.Holds k) (hfrom : ∀ k, k ≠ r → ¬ (d.conn c).Holds k)
    (hobserved : room.observed = (d.room r).observed)
    (hdestroyed : room.destroyed = (d.room r).destroyed)
    (hconn : ∀ k, conn ≠ .awaiting k ∧ conn ≠ .evicting k) (hoccupied : room.conns.Nonempty) :
    Inv docBusEnabled ((d.setRoom r room).setConn c conn) :=
  { hs with
    unborn := by
      intro k hk
      have hne : k ≠ r := fun heq => absurd (hs.entry_lt r hentry) (Nat.not_lt_of_le (heq ▸ hk))
      simpa [Doc.setConn, Doc.setRoom, Function.update_apply, hne] using hs.unborn k hk
    conns_iff := by
      intro k j
      have h := hs.conns_iff k j
      have ht := hto k
      have hf := hfrom k
      have hj := hconns j
      simp only [Doc.setConn, Doc.setRoom, Function.update_apply]
      grind
    conns_entry := by
      intro k j hj
      have h := hs.conns_entry k j
      simp only [Doc.setConn, Doc.setRoom, Function.update_apply] at hj ⊢
      grind
    awaiting_lt := by
      intro k j hk
      have h := hs.awaiting_lt k j
      have hj := hconn j
      simp only [Doc.setConn, Doc.setRoom, Function.update_apply] at hk ⊢
      grind
    held := by
      intro k hk
      have hkr : k = r := Option.some.inj (hk.symm.trans hentry)
      subst hkr
      exact Or.inr (by simpa [Doc.setConn, Doc.setRoom] using hoccupied)
    handler_iff := by
      intro k
      have h := hs.handler_iff k
      simp only [Doc.setConn, Doc.setRoom, Function.update_apply]
      grind
    observed_ready := by
      intro k hk
      have h := hs.observed_ready k
      simp only [Doc.setConn, Doc.setRoom, Function.update_apply] at hk ⊢
      grind
    destroyed_settled := by
      intro k hk
      have h := hs.destroyed_settled k
      simp only [Doc.setConn, Doc.setRoom, Function.update_apply] at hk ⊢
      grind
    evicting_written := by
      intro k j hk
      have h := hs.evicting_written k j
      have hj := hconn j
      simp only [Doc.setConn, Doc.setRoom, Function.update_apply] at hk ⊢
      grind }

theorem inv_setCreation (hs : Inv docBusEnabled d) {creation : Creation}
    (hfrom : d.creation r ≠ .unborn ∧ d.creation r ≠ .ready ∧ d.creation r ≠ .absent)
    (hto : creation ≠ .unborn ∧ ∀ w, creation ≠ .waiting w)
    (hidle : ∀ p, d.pendingWrite ≠ some p) : Inv docBusEnabled (d.setCreation r creation) :=
  { hs with
    unborn := by
      intro k hk
      have h := hs.unborn k hk
      simp only [Doc.setCreation, Function.update_apply]
      grind
    usable_entry := by
      intro k hk
      have h := hs.usable_entry k
      simp only [Usable, Doc.setCreation, Function.update_apply] at hk h ⊢
      grind
    waiting := by
      intro k v hk
      have h := hs.waiting k v
      simp only [Doc.setCreation, Function.update_apply] at hk ⊢
      grind
    started := fun _ _ _ => hidle
    conns_entry := by
      intro k j hj
      have h := hs.conns_entry k j hj
      simp only [Doc.setCreation, Function.update_apply]
      grind
    observed_ready := by
      intro k hk
      have h := hs.observed_ready k hk
      simp only [Doc.setCreation, Function.update_apply]
      grind
    written_ready := by
      intro k hk
      have h := hs.written_ready k hk
      simp only [Doc.setCreation, Function.update_apply]
      grind }

theorem inv_proceed (hs : Inv docBusEnabled d) (hr : d.creation r = .waiting w)
    (hw : d.finalWrite w = .settled) : Inv docBusEnabled (d.setCreation r .building) := by
  refine inv_setCreation hs (by simp [hr]) (by simp) fun p hp => ?_
  have hpw : p = w := (hs.waiting r w hr).2 p hp
  have hpending : d.finalWrite w = .pending := (hs.pendingWrite_iff w).mp (hpw ▸ hp)
  simp [hw] at hpending

/-- A room that is still being created is the registered one. -/
theorem entry_of_building (hs : Inv docBusEnabled d) (hr : d.creation r = .building) :
    d.entry = some r := by
  refine hs.usable_entry r ⟨by simp [hr], by simp [hr], ?_⟩
  by_contra hwritten
  simp [hs.written_ready r hwritten] at hr

theorem inv_create (hs : Inv docBusEnabled d) (hr : d.creation r = .building) (found : Bool) :
    Inv docBusEnabled (d.setCreation r (if found then .ready else .absent)) := by
  refine inv_setCreation hs (by simp [hr]) (by cases found <;> simp) ?_
  exact hs.started r (entry_of_building hs hr) (Or.inl hr)

theorem inv_createRoom (hs : Inv docBusEnabled d) (hentry : d.entry = none)
    (hholds : ∀ r, ¬ (d.conn c).Holds r) :
    Inv docBusEnabled ((createRoom d).setConn c (.awaiting d.next)) := by
  have hempty : ∀ r k, k ∉ (d.room r).conns := fun r k hk => by
    simp [(hs.conns_entry r k hk).1] at hentry
  have hoff : ∀ r, d.handler ≠ some r := fun r hr => by
    simp [((hs.handler_iff r).mp hr).2.1] at hentry
  obtain ⟨-, hunwritten, hfresh⟩ := hs.unborn d.next le_rfl
  constructor
  case unborn =>
    intro r hr
    have h := hs.unborn r (Nat.le_of_succ_le hr)
    have hne : r ≠ d.next := Nat.ne_of_gt hr
    simpa [createRoom, Doc.setConn, Doc.setCreation, Function.update_apply, hne] using h
  case entry_newest =>
    rintro r ⟨⟩
    rfl
  case usable_entry =>
    intro r hr
    have h := hs.usable_entry r
    simp only [Usable, createRoom, Doc.setConn, Doc.setCreation, Function.update_apply] at hr h ⊢
    grind
  case entry_kept =>
    rintro r ⟨⟩
    exact hunwritten
  case pendingWrite_iff => exact hs.pendingWrite_iff
  case waiting =>
    intro r v hr
    have h := hs.waiting r v
    have hp := hs.pendingWrite_iff
    simp only [createRoom, Doc.setConn, Doc.setCreation, Function.update_apply] at hr ⊢
    grind
  case started =>
    rintro r ⟨⟩ hr p hp
    simp only [createRoom, Doc.setConn, Doc.setCreation, Function.update_self] at hr hp
    grind
  case conns_iff =>
    intro r k
    have h := hs.conns_iff r k
    have hc := hholds r
    simp only [createRoom, Doc.setConn, Doc.setCreation, Function.update_apply]
    grind [Conn.Holds]
  case conns_entry => exact fun r k hk => absurd hk (hempty r k)
  case awaiting_lt =>
    intro k r hk
    have h := hs.awaiting_lt k r
    simp only [createRoom, Doc.setConn, Doc.setCreation, Function.update_apply] at hk ⊢
    grind
  case held =>
    rintro r ⟨⟩
    exact Or.inl ⟨c, by simp [Doc.setConn]⟩
  case handler_iff =>
    refine fun r => ⟨fun hr => absurd hr (hoff r), ?_⟩
    rintro ⟨-, ⟨⟩, hobserved⟩
    have hnot : (d.room d.next).observed = false := by rw [hfresh]; rfl
    exact absurd hobserved (by simp [createRoom, Doc.setConn, Doc.setCreation, hnot])
  case observed_ready =>
    intro r hr
    have h := hs.observed_ready r
    have hnot : (d.room d.next).observed = false := by rw [hfresh]; rfl
    simp only [createRoom, Doc.setConn, Doc.setCreation, Function.update_apply] at hr ⊢
    grind
  case written_ready =>
    intro r hr
    have h := hs.written_ready r
    simp only [createRoom, Doc.setConn, Doc.setCreation, Function.update_apply] at hr ⊢
    grind
  case destroyed_settled => exact hs.destroyed_settled
  case evicting_written =>
    intro k r hk
    have h := hs.evicting_written k r
    simp only [createRoom, Doc.setConn, Doc.setCreation, Function.update_apply] at hk ⊢
    grind

theorem inv_joinRoom (hs : Inv docBusEnabled d) (hholds : ∀ r, ¬ (d.conn c).Holds r) :
    Inv docBusEnabled (joinRoom d c) := by
  unfold joinRoom
  cases hentry : d.entry with
  | some p =>
      exact
      { hs with
        conns_iff := by
          intro r k
          have h := hs.conns_iff r k
          have hc := hholds r
          simp only [Doc.setConn, Function.update_apply]
          grind [Conn.Holds]
        awaiting_lt := by
          intro k r hk
          have h := hs.awaiting_lt k r
          have hp := hs.entry_lt p hentry
          simp only [Doc.setConn, Function.update_apply] at hk ⊢
          grind
        held := by
          intro r hr
          have hrp : r = p := Option.some.inj (hr.symm.trans hentry)
          exact Or.inl ⟨c, by simp [Doc.setConn, hrp]⟩
        evicting_written := by
          intro k r hk
          have h := hs.evicting_written k r
          simp only [Doc.setConn, Function.update_apply] at hk ⊢
          grind }
  | none => exact inv_createRoom hs hentry hholds

theorem inv_deleteAbsent (hs : Inv docBusEnabled d) (hc : d.conn c = .awaiting r)
    (hr : d.creation r = .absent) : Inv docBusEnabled ((d.deleteEntry r).setConn c .refused) := by
  have hholds : ∀ k, Conn.Holds .refused k ↔ (d.conn c).Holds k := by
    simp [Conn.Holds, hc]
  by_cases hentry : d.entry = some r
  · have hdelete : d.deleteEntry r = { d with entry := none } := if_pos hentry
    have hempty : ∀ k j, j ∉ (d.room k).conns := fun k j hj => by
      obtain ⟨hk, hready⟩ := hs.conns_entry k j hj
      rw [hentry, Option.some.injEq] at hk
      simp [← hk, hr] at hready
    have hoff : ∀ k, d.handler ≠ some k := fun k hk => by
      obtain ⟨-, hk, hobserved⟩ := (hs.handler_iff k).mp hk
      rw [hentry, Option.some.injEq] at hk
      simpa [← hk, hr] using hs.observed_ready k hobserved
    have hcleared : Inv docBusEnabled { d with entry := none } :=
      { hs with
        entry_newest := fun _ hk => nomatch hk
        usable_entry := by
          intro k hk
          have h := hs.usable_entry k hk
          rw [hentry, Option.some.injEq] at h
          exact absurd hr (h ▸ hk.2.1)
        entry_kept := fun _ hk => nomatch hk
        started := fun _ hk => nomatch hk
        conns_entry := fun k j hj => absurd hj (hempty k j)
        held := fun _ hk => nomatch hk
        handler_iff := fun k => ⟨fun hk => absurd hk (hoff k), fun hk => nomatch hk.2.1⟩ }
    rw [hdelete]
    exact inv_setConn hcleared hholds (fun _ _ hk => nomatch hk) (by simp) (by simp)
  · have hdelete : d.deleteEntry r = d := if_neg hentry
    rw [hdelete]
    refine inv_setConn hs hholds (fun k hk => ?_) (by simp) (by simp)
    rw [hc, Conn.awaiting.injEq] at hk
    exact hk ▸ hentry

theorem inv_enter (hs : Inv docBusEnabled d) (hc : d.conn c = .awaiting r)
    (hr : d.creation r = .ready) (hentry : d.entry = some r) :
    Inv docBusEnabled ((d.setRoom r ((d.room r).add c)).setConn c (.joined r)) := by
  refine inv_moveConn hs hentry hr (fun j => ?_) (fun k hk => ?_) (fun k _ => ?_) rfl rfl
    (by simp) ⟨c, by simp [Room.add]⟩
  · by_cases hj : j = c <;> simp [Room.add, hj, Conn.Holds]
  · simp [Conn.Holds, hk.symm]
  · simp [Conn.Holds, hc]

theorem entry_of_holds (hs : Inv docBusEnabled d) (hc : (d.conn c).Holds r) :
    d.entry = some r ∧ d.creation r = .ready :=
  hs.conns_entry r c ((hs.conns_iff r c).mpr hc)

theorem inv_observe (hs : Inv docBusEnabled d) (hentry : d.entry = some r)
    (hr : d.creation r = .ready) : Inv docBusEnabled (attachRoomObservers docBusEnabled d r) := by
  by_cases hobserved : (d.room r).observed = true
  · rw [attachRoomObservers, if_pos hobserved]
    exact hs
  · have hattach : attachRoomObservers docBusEnabled d r =
        { d.setRoom r { d.room r with observed := true } with
          handler := if docBusEnabled then some r else d.handler } := by
      rw [attachRoomObservers, if_neg hobserved]
      cases docBusEnabled <;> rfl
    rw [hattach]
    refine inv_setRoom hs (hs.entry_lt r hentry) rfl (fun _ => hr) (hs.destroyed_settled r) ?_
    intro k
    have h := hs.handler_iff k
    simp only [Doc.setRoom, Function.update_apply]
    grind

theorem inv_attach (hs : Inv docBusEnabled d) (hc : d.conn c = .joined r) :
    Inv docBusEnabled ((attachRoomObservers docBusEnabled d r).setConn c (.inside r)) := by
  obtain ⟨hentry, hr⟩ := entry_of_holds hs (c := c) (Or.inl hc)
  have hconn := (attachRoomObservers_rest docBusEnabled d r).2.2
  refine inv_setConn (inv_observe hs hentry hr) ?_ ?_ (by simp) (by simp)
  · simp [hconn, hc, Conn.Holds]
  · simp [hconn, hc]

theorem inv_leaveRoom (hs : Inv docBusEnabled d)
    (hc : d.conn c = .joined r ∨ d.conn c = .inside r) :
    Inv docBusEnabled (leaveRoom d c) := by
  have hholds : (d.conn c).Holds r := by
    rcases hc with hc | hc
    · exact Or.inl hc
    · exact Or.inr (Or.inl hc)
  have hentry := (entry_of_holds hs hholds).1
  have hleave : leaveRoom d c = d.setConn c (.leaving r) := by
    simp only [leaveRoom, hentry]
  rw [hleave]
  refine inv_setConn hs ?_ ?_ (by simp) (by simp)
  · rcases hc with hc | hc <;> simp [hc, Conn.Holds]
  · rcases hc with hc | hc <;> simp [hc]

theorem inv_leaveShared (hs : Inv docBusEnabled d) (hc : d.conn c = .leaving r)
    (hne : ((d.room r).delete c).conns.Nonempty) :
    Inv docBusEnabled ((d.setRoom r ((d.room r).delete c)).setConn c .left) := by
  obtain ⟨hentry, hr⟩ := entry_of_holds hs (c := c) (Or.inr (Or.inr hc))
  refine inv_moveConn hs hentry hr (fun j => ?_) (by simp [Conn.Holds]) (fun k hk => ?_) rfl rfl
    (by simp) hne
  · by_cases hj : j = c <;> simp [Room.delete, hj, Conn.Holds]
  · simp [Conn.Holds, hc, hk.symm]

/-- No room waits for a write while another one is registered and ready. -/
theorem not_waiting_of_ready (hs : Inv docBusEnabled d) (hentry : d.entry = some r)
    (hr : d.creation r = .ready) (k : RoomId) (v : RoomId) : d.creation k ≠ .waiting v := by
  intro hk
  have hunwritten : d.finalWrite k = .none := by
    by_contra hwritten
    simp [hs.written_ready k hwritten] at hk
  have hentry' := hs.usable_entry k ⟨by simp [hk], by simp [hk], hunwritten⟩
  rw [hentry, Option.some.injEq] at hentry'
  simp [← hentry', hr] at hk

theorem inv_evict (hs : Inv docBusEnabled d) (hc : d.conn c = .leaving r)
    (hlast : ¬ ((d.room r).delete c).conns.Nonempty) :
    Inv docBusEnabled
      ((evict (d.setRoom r ((d.room r).delete c)) r).setConn c (.evicting r)) := by
  obtain ⟨hentry, hr⟩ := entry_of_holds hs (c := c) (Or.inr (Or.inr hc))
  have hidle := hs.started r hentry (Or.inr hr)
  have hkept := hs.entry_kept r hentry
  have hothers : ∀ k, k ≠ r → ∀ j, j ∉ (d.room k).conns := fun k hk j hj => by
    have hk' := (hs.conns_entry k j hj).1
    rw [hentry, Option.some.injEq] at hk'
    exact hk hk'.symm
  have hevict : evict (d.setRoom r ((d.room r).delete c)) r =
      { d.setRoom r ((d.room r).delete c) with
        entry := none
        handler := none
        finalWrite := Function.update d.finalWrite r .pending
        pendingWrite := some r } := by
    simp [evict, Doc.deleteEntry, Doc.setRoom, hentry]
  rw [hevict]
  rw [Finset.not_nonempty_iff_eq_empty] at hlast
  constructor
  case unborn =>
    intro k hk
    have h := hs.unborn k hk
    have hne : k ≠ r := fun heq => absurd (hs.entry_lt r hentry) (Nat.not_lt_of_le (heq ▸ hk))
    simpa [Doc.setConn, Doc.setRoom, Function.update_apply, hne] using h
  case entry_newest => exact fun _ hk => nomatch hk
  case usable_entry =>
    intro k hk
    have h := hs.usable_entry k
    simp only [Usable, Doc.setConn, Doc.setRoom, Function.update_apply] at hk h ⊢
    grind
  case entry_kept => exact fun _ hk => nomatch hk
  case pendingWrite_iff =>
    intro k
    have h := hs.pendingWrite_iff k
    have hk := hidle k
    simp only [Doc.setConn, Doc.setRoom, Function.update_apply]
    grind
  case waiting => exact fun k v hk => absurd hk (not_waiting_of_ready hs hentry hr k v)
  case started => exact fun _ hk => nomatch hk
  case conns_iff =>
    intro k j
    have h := hs.conns_iff k j
    have ho := hothers k
    have hl : j ∉ ((d.room r).delete c).conns := by simp [hlast]
    simp only [Doc.setConn, Doc.setRoom, Room.delete, Function.update_apply] at hl ⊢
    grind [Conn.Holds]
  case conns_entry =>
    intro k j hj
    have ho := hothers k
    have hl : j ∉ ((d.room r).delete c).conns := by simp [hlast]
    simp only [Doc.setConn, Doc.setRoom, Function.update_apply] at hj
    grind
  case awaiting_lt =>
    intro k j hk
    have h := hs.awaiting_lt k j
    simp only [Doc.setConn, Doc.setRoom, Function.update_apply] at hk ⊢
    grind
  case held => exact fun _ hk => nomatch hk
  case handler_iff => exact fun _ => ⟨fun hk => (nomatch hk), fun hk => (nomatch hk.2.1)⟩
  case observed_ready =>
    intro k hk
    have h := hs.observed_ready k
    simp only [Doc.setConn, Doc.setRoom, Room.delete, Function.update_apply] at hk ⊢
    grind
  case written_ready =>
    intro k hk
    have h := hs.written_ready k
    simp only [Doc.setConn, Doc.setRoom, Function.update_apply] at hk ⊢
    grind
  case destroyed_settled =>
    intro k hk
    have h := hs.destroyed_settled k
    simp only [Doc.setConn, Doc.setRoom, Room.delete, Function.update_apply] at hk ⊢
    grind
  case evicting_written =>
    intro k j hk
    have h := hs.evicting_written k j
    simp only [Doc.setConn, Doc.setRoom, Function.update_apply] at hk ⊢
    grind

theorem inv_settleWrite (hs : Inv docBusEnabled d) (hr : d.finalWrite r = .pending) :
    Inv docBusEnabled (settleWrite d r) := by
  have hpending : d.pendingWrite = some r := (hs.pendingWrite_iff r).mpr hr
  have hsettle : settleWrite d r =
      { d with
        finalWrite := Function.update d.finalWrite r .settled
        pendingWrite := none } := by
    simp [settleWrite, hpending]
  rw [hsettle]
  exact
  { hs with
    unborn := by
      intro k hk
      have h := hs.unborn k hk
      simp only [Function.update_apply]
      grind
    usable_entry := by
      intro k hk
      have h := hs.usable_entry k
      simp only [Usable, Function.update_apply] at hk h
      grind
    entry_kept := by
      intro k hk
      have h := hs.entry_kept k hk
      simp only [Function.update_apply]
      grind
    pendingWrite_iff := by
      intro k
      have h := hs.pendingWrite_iff k
      simp only [Function.update_apply]
      grind
    waiting := by
      intro k v hk
      have h := (hs.waiting k v hk).1
      simp only [Function.update_apply]
      grind
    started := fun _ _ _ _ hp => nomatch hp
    written_ready := by
      intro k hk
      have h := hs.written_ready k
      simp only [Function.update_apply] at hk
      grind
    destroyed_settled := by
      intro k hk
      have h := hs.destroyed_settled k hk
      simp only [Function.update_apply]
      grind
    evicting_written := by
      intro k j hk
      have h := hs.evicting_written k j hk
      simp only [Function.update_apply]
      grind }

theorem inv_finishLeave (hs : Inv docBusEnabled d) (hc : d.conn c = .evicting r)
    (hr : d.finalWrite r = .settled) : Inv docBusEnabled (finishLeave d c r) := by
  have hlt : r < d.next := by
    by_contra hge
    simp [(hs.unborn r (Nat.le_of_not_lt hge)).2.1] at hr
  have hroom : Inv docBusEnabled (d.setRoom r { d.room r with destroyed := true }) := by
    refine inv_setRoom hs hlt rfl (hs.observed_ready r) (fun _ => hr) (fun k => ?_)
    have h := hs.handler_iff k
    simp only [Doc.setRoom, Function.update_apply]
    grind
  refine inv_setConn hroom ?_ ?_ (by simp) (by simp)
  · simp [Doc.setRoom, hc, Conn.Holds]
  · simp [Doc.setRoom, hc]

theorem inv_step {e : Event} (hs : Inv docBusEnabled d) (h : step docBusEnabled d e = some d') :
    Inv docBusEnabled d' := by
  cases took h with
  | join hc => exact inv_joinRoom hs (by simp [Conn.Holds, hc])
  | proceed hr hw => exact inv_proceed hs hr hw
  | create hr found => exact inv_create hs hr found
  | refuse hc hr => exact inv_deleteAbsent hs hc hr
  | enter hc hr hentry => exact inv_enter hs hc hr hentry
  | rejoin hc hr hentry => exact inv_joinRoom hs (by simp [Conn.Holds, hc])
  | attach hc => exact inv_attach hs hc
  | leave hc => exact inv_leaveRoom hs hc
  | @leaveAbsent c r hc hr =>
      have hready := (entry_of_holds hs (c := c) (Or.inr (Or.inr hc))).2
      simp [hr] at hready
  | leaveShared hc hr hne => exact inv_leaveShared hs hc hne
  | leaveLast hc hr hlast => exact inv_evict hs hc hlast
  | writeSettles hr => exact inv_settleWrite hs hr
  | finishLeave hc hr => exact inv_finishLeave hs hc hr

/-! ## What a step does to the promises -/

theorem joinRoom_creation (hs : Inv docBusEnabled d) (c : ConnId) (r : RoomId) :
    (d.creation r = .building → (joinRoom d c).creation r = .building) ∧
      ((joinRoom d c).creation r = .ready ↔ d.creation r = .ready) := by
  unfold joinRoom
  cases d.entry with
  | some p => exact ⟨id, Iff.rfl⟩
  | none =>
      have hunborn := (hs.unborn d.next le_rfl).1
      simp only [createRoom, Doc.setConn, Doc.setCreation, Function.update_apply]
      grind

theorem step_creation {e : Event} (hs : Inv docBusEnabled d)
    (hcreate : ∀ r found, e ≠ .create r found) (h : step docBusEnabled d e = some d')
    (r : RoomId) :
    (d.creation r = .building → d'.creation r = .building) ∧
      (d'.creation r = .ready ↔ d.creation r = .ready) := by
  cases took h with
  | join | rejoin => exact joinRoom_creation hs _ r
  | proceed hr hw =>
      simp only [Doc.setCreation, Function.update_apply]
      grind
  | create hr found => exact absurd rfl (hcreate _ found)
  | @attach c k hc =>
      simp [Doc.setConn, (attachRoomObservers_rest docBusEnabled d k).1]
  | @leave c k hc =>
      obtain ⟨conn, hleave, -⟩ := leaveRoom_eq d c
      simp [hleave, Doc.setConn]
  | refuse | leaveLast => simp [Doc.setConn, Doc.setRoom, evict]
  | _ => exact ⟨id, Iff.rfl⟩

/-! ## Waiting for a write -/

/-- A room registered while a final write is pending waits for it. -/
def Blocked (d : Doc) : Prop :=
  ∀ r p, d.entry = some r → d.pendingWrite = some p → d.creation r = .waiting p

theorem blocked_joinRoom (hb : Blocked d) (c : ConnId) : Blocked (joinRoom d c) := by
  intro r p hentry hpending
  unfold joinRoom at hentry hpending ⊢
  cases hd : d.entry with
  | some k =>
      simp only [hd, Doc.setConn, Option.some.injEq] at hentry hpending ⊢
      exact hb r p (hd.trans (congrArg some hentry)) hpending
  | none =>
      simp only [hd, createRoom, Doc.setConn, Doc.setCreation, Option.some.injEq]
        at hentry hpending ⊢
      rw [← hentry, hpending, Function.update_self]

theorem blocked_step {e : Event} (hs : Inv docBusEnabled d) (hb : Blocked d)
    (h : step docBusEnabled d e = some d') : Blocked d' := by
  cases took h with
  | join | rejoin => exact blocked_joinRoom hb _
  | @proceed r w hr hw =>
      intro k p hentry hpending
      have hk : d.creation k = .waiting p := hb k p hentry hpending
      have hne : k ≠ r := by
        rintro rfl
        cases hr.symm.trans hk
        exact absurd ((hs.pendingWrite_iff w).mp hpending) (by simp [hw])
      exact (Function.update_of_ne hne _ _).trans hk
  | @create r hr found =>
      intro k p hentry hpending
      have hk : d.creation k = .waiting p := hb k p hentry hpending
      have hne : k ≠ r := by
        rintro rfl
        simp [hr] at hk
      exact (Function.update_of_ne hne _ _).trans hk
  | @refuse c r hc hr =>
      intro k p hentry hpending
      simp only [Doc.setConn, Doc.deleteEntry] at hentry hpending ⊢
      split at hentry
      · cases hentry
      · next hother =>
          simp only [if_neg hother] at hpending ⊢
          exact hb k p hentry hpending
  | @attach c r hc =>
      intro k p hentry hpending
      unfold attachRoomObservers at hentry hpending ⊢
      split at hentry <;> rename_i hobserved
      · simp only [hobserved, if_true] at hpending ⊢
        exact hb k p hentry hpending
      · simp only [hobserved] at hpending ⊢
        cases docBusEnabled <;> exact hb k p hentry hpending
  | @leave c r hc =>
      obtain ⟨conn, hleave, -⟩ := leaveRoom_eq d c
      rw [hleave]
      exact hb
  | @leaveLast c r hc hr hlast =>
      intro k p hentry hpending
      have hregistered := (entry_of_holds hs (Or.inr (Or.inr hc))).1
      simp [Doc.setConn, evict, Doc.setRoom, Doc.deleteEntry, hregistered] at hentry
  | @writeSettles r hr =>
      intro k p hentry hpending
      simp only [settleWrite] at hentry hpending
      split at hpending
      · cases hpending
      · exact hb k p hentry hpending
  | enter | leaveAbsent | leaveShared | finishLeave => exact hb

/-- A room waits until the write it waits for has settled. -/
theorem waiting_step {e : Event} (hs : Inv docBusEnabled d) (hr : d.creation r = .waiting w)
    (h : step docBusEnabled d e = some d') :
    d'.creation r = .waiting w ∨ d'.finalWrite w = .settled := by
  have hborn : r ≠ d.next := by
    rintro rfl
    rw [(hs.unborn d.next le_rfl).1] at hr
    cases hr
  have hjoin : ∀ c, (joinRoom d c).creation r = .waiting w := by
    intro c
    unfold joinRoom
    cases d.entry with
    | some p => exact hr
    | none => exact (Function.update_of_ne hborn _ _).trans hr
  cases took h with
  | join | rejoin => exact Or.inl (hjoin _)
  | @proceed k v hk hv =>
      by_cases hkr : r = k
      · subst hkr
        cases hr.symm.trans hk
        exact Or.inr hv
      · exact Or.inl ((Function.update_of_ne hkr _ _).trans hr)
  | @create k hk found =>
      have hkr : r ≠ k := by
        rintro rfl
        simp [hr] at hk
      exact Or.inl ((Function.update_of_ne hkr _ _).trans hr)
  | @attach c k hc =>
      exact Or.inl (by simpa [Doc.setConn, (attachRoomObservers_rest docBusEnabled d k).1] using hr)
  | @leave c k hc =>
      obtain ⟨conn, hleave, -⟩ := leaveRoom_eq d c
      exact Or.inl (by simpa [hleave, Doc.setConn] using hr)
  | refuse | leaveLast => exact Or.inl (by simpa [Doc.setConn, Doc.setRoom, evict] using hr)
  | _ => exact Or.inl hr

/-- What a step does to the final writes: an eviction registers one, and
`writeSettles` settles one. -/
def finalWriteStep (d : Doc) (e : Event) (r : RoomId) : FinalWrite :=
  match e with
  | .resumeLeave c => if evicted d c = some r then .pending else d.finalWrite r
  | .writeSettles k => if k = r then .settled else d.finalWrite r
  | _ => d.finalWrite r

theorem step_finalWrite {e : Event} (h : step docBusEnabled d e = some d') (r : RoomId) :
    d'.finalWrite r = finalWriteStep d e r := by
  cases took h with
  | join | rejoin => simp [finalWriteStep]
  | refuse => simp [finalWriteStep, Doc.setConn]
  | @attach c k hc =>
      simp [finalWriteStep, Doc.setConn, (attachRoomObservers_rest docBusEnabled d k).2.1]
  | @leave c k hc =>
      obtain ⟨conn, hleave, -⟩ := leaveRoom_eq d c
      simp [finalWriteStep, hleave, Doc.setConn]
  | leaveAbsent hc hr => simp [finalWriteStep, evicted, hc, hr, Doc.setConn]
  | leaveShared hc hr hne => simp [finalWriteStep, evicted, hc, hne, Doc.setConn, Doc.setRoom]
  | @leaveLast c k hc hr hlast =>
      simp only [finalWriteStep, evicted, hc, hr, hlast, not_false_eq_true, and_self, if_true,
        Option.some.injEq, Doc.setConn, evict, Doc.setRoom, Function.update_apply, eq_comm]
  | @writeSettles k hr =>
      simp only [finalWriteStep, settleWrite, Function.update_apply, eq_comm]
  | _ => rfl

/-! ## What a step does to the connections -/

/-- From one turn of a connection to its next. -/
def Conn.Next : Conn → Conn → Prop
  | .idle, .awaiting _ => True
  | .awaiting _, .awaiting _ | .awaiting _, .joined _ | .awaiting _, .refused => True
  | .joined r, .inside r' => r' = r
  | .joined _, .leaving _ | .joined _, .left | .inside _, .leaving _ | .inside _, .left => True
  | .leaving _, .left | .leaving _, .evicting _ | .evicting _, .left => True
  | _, _ => False

theorem step_conn {e : Event} (h : step docBusEnabled d e = some d') :
    d'.conn = d.conn ∨
      ∃ c conn, d'.conn = Function.update d.conn c conn ∧ (d.conn c).Next conn := by
  cases took h with
  | @join c hc | @rejoin c k hc hr hentry =>
      obtain ⟨r, hconn⟩ := joinRoom_conn d c
      exact Or.inr ⟨c, _, hconn, by simp [hc, Conn.Next]⟩
  | proceed | create | writeSettles => exact Or.inl rfl
  | @refuse c k hc hr =>
      exact Or.inr ⟨c, .refused, by simp [Doc.setConn], by simp [hc, Conn.Next]⟩
  | @enter c k hc hr hentry => exact Or.inr ⟨c, .joined k, rfl, by simp [hc, Conn.Next]⟩
  | @attach c k hc =>
      refine Or.inr ⟨c, .inside k, ?_, by simp [hc, Conn.Next]⟩
      rw [Doc.setConn, (attachRoomObservers_rest docBusEnabled d k).2.2]
  | @leave c k hc =>
      obtain ⟨conn, hleave, hconn⟩ := leaveRoom_eq d c
      refine Or.inr ⟨c, conn, by rw [hleave, Doc.setConn], ?_⟩
      rcases hc with hc | hc <;> rcases hconn with rfl | ⟨p, rfl⟩ <;> simp [hc, Conn.Next]
  | @leaveAbsent c k hc hr => exact Or.inr ⟨c, .left, rfl, by simp [hc, Conn.Next]⟩
  | @leaveShared c k hc hr hne => exact Or.inr ⟨c, .left, rfl, by simp [hc, Conn.Next]⟩
  | @leaveLast c k hc hr hlast =>
      exact Or.inr ⟨c, .evicting k, by simp [Doc.setConn, evict, Doc.setRoom],
        by simp [hc, Conn.Next]⟩
  | @finishLeave c k hc hr => exact Or.inr ⟨c, .left, rfl, by simp [hc, Conn.Next]⟩

/-- The turns with which a connection begins, enters or ends a visit. -/
def Event.visits : Event → Bool
  | .join _ | .attach _ | .leave _ => true
  | _ => false

theorem conn_of_not_visits {e : Event} (he : e.visits = false)
    (h : step docBusEnabled d e = some d') (k : ConnId) :
    (d.conn k = .idle → d'.conn k = .idle) ∧
      ∀ r, d'.conn k = .inside r ↔ d.conn k = .inside r := by
  have hmoved : ∀ c conn, d'.conn = Function.update d.conn c conn →
      d.conn c ≠ .idle → (∀ r, d.conn c ≠ .inside r) → (∀ r, conn ≠ .inside r) →
      (d.conn k = .idle → d'.conn k = .idle) ∧
        ∀ r, d'.conn k = .inside r ↔ d.conn k = .inside r := by
    intro c conn hconn hidle hout hout'
    by_cases hk : k = c
    · subst hk
      rw [hconn, Function.update_self]
      exact ⟨fun h => absurd h hidle, fun r => iff_of_false (hout' r) (hout r)⟩
    · rw [hconn, Function.update_of_ne hk]
      exact ⟨id, fun _ => Iff.rfl⟩
  cases took h with
  | join | attach | leave => cases he
  | proceed | create | writeSettles => exact ⟨id, fun _ => Iff.rfl⟩
  | @rejoin c r hc hr hentry =>
      obtain ⟨p, hconn⟩ := joinRoom_conn d c
      exact hmoved c _ hconn (by simp [hc]) (by simp [hc]) (by simp)
  | @refuse c r hc hr =>
      exact hmoved c .refused (by simp [Doc.setConn]) (by simp [hc]) (by simp [hc]) (by simp)
  | @enter c r hc => exact hmoved c (.joined r) rfl (by simp [hc]) (by simp [hc]) (by simp)
  | @leaveAbsent c r hc => exact hmoved c .left rfl (by simp [hc]) (by simp [hc]) (by simp)
  | @leaveShared c r hc => exact hmoved c .left rfl (by simp [hc]) (by simp [hc]) (by simp)
  | @leaveLast c r hc =>
      exact hmoved c (.evicting r) (by simp [Doc.setConn, evict, Doc.setRoom]) (by simp [hc])
        (by simp [hc]) (by simp)
  | @finishLeave c r hc => exact hmoved c .left rfl (by simp [hc]) (by simp [hc]) (by simp)

/-- Every room a connection is inside of has its observers. -/
def AllObserved (d : Doc) : Prop :=
  ∀ c r, d.conn c = .inside r → (d.room r).observed = true

/-- The flag of a room is set by whoever attaches first, and never cleared. -/
theorem step_observed {e : Event} (h : step docBusEnabled d e = some d') (k : RoomId) :
    (d'.room k).observed = true ↔
      (d.room k).observed = true ∨ ∃ c, e = .attach c ∧ d.conn c = .joined k := by
  have hsame : (∀ c, e ≠ .attach c) → (d'.room k).observed = (d.room k).observed →
      ((d'.room k).observed = true ↔
        (d.room k).observed = true ∨ ∃ c, e = .attach c ∧ d.conn c = .joined k) := by
    intro hne hobserved
    rw [hobserved]
    refine ⟨Or.inl, ?_⟩
    rintro (hk | ⟨c, he, -⟩)
    · exact hk
    · exact absurd he (hne c)
  have hset : ∀ (r : RoomId) (room : Room), room.observed = (d.room r).observed →
      ((d.setRoom r room).room k).observed = (d.room k).observed := by
    intro r room hroom
    by_cases hk : k = r
    · subst hk
      simpa [Doc.setRoom] using hroom
    · simp [Doc.setRoom, Function.update_of_ne hk]
  cases took h with
  | @join c | @rejoin c =>
      refine hsame (fun _ => Event.noConfusion) ?_
      unfold joinRoom
      cases d.entry <;> rfl
  | proceed | create | leaveAbsent | writeSettles => exact hsame (fun _ => Event.noConfusion) rfl
  | @refuse c r =>
      refine hsame (fun _ => Event.noConfusion) ?_
      unfold Doc.deleteEntry
      split <;> rfl
  | @enter c r => exact hsame (fun _ => Event.noConfusion) (hset r _ rfl)
  | @attach c r hc =>
      have hattached : ((attachRoomObservers docBusEnabled d r).room k).observed =
          if k = r then true else (d.room k).observed := by
        unfold attachRoomObservers
        by_cases hr : (d.room r).observed = true
        · rw [if_pos hr]
          by_cases hk : k = r
          · rw [if_pos hk, hk, hr]
          · rw [if_neg hk]
        · rw [if_neg hr]
          by_cases hk : k = r
          · cases docBusEnabled <;> simp [Doc.setRoom, hk]
          · cases docBusEnabled <;> simp [Doc.setRoom, hk]
      simp only [Doc.setConn, hattached, Event.attach.injEq]
      by_cases hk : k = r
      · simp [hk, hc]
      · simp [hk, hc, Ne.symm hk]
  | @leave c r =>
      refine hsame (fun _ => Event.noConfusion) ?_
      obtain ⟨conn, hleave, -⟩ := leaveRoom_eq d c
      rw [hleave]
      rfl
  | @leaveShared c r | @finishLeave c r =>
      exact hsame (fun _ => Event.noConfusion) (hset r _ rfl)
  | @leaveLast c r =>
      refine hsame (fun _ => Event.noConfusion) ?_
      simp only [evict, Doc.setConn, Doc.deleteEntry]
      split <;> exact hset r _ rfl

theorem allObserved_step {e : Event} (hall : AllObserved d)
    (h : step docBusEnabled d e = some d') : AllObserved d' := by
  intro c r hin
  rw [step_observed h]
  cases he : e.visits with
  | false => exact Or.inl (hall c r (((conn_of_not_visits he h c).2 r).mp hin))
  | true =>
      have hother : ∀ k conn, d'.conn = Function.update d.conn k conn → conn ≠ .inside r →
          (d.room r).observed = true := by
        intro k conn hconn hne
        by_cases hck : c = k
        · rw [hconn, hck, Function.update_self] at hin
          exact absurd hin hne
        · rw [hconn, Function.update_of_ne hck] at hin
          exact hall c r hin
      cases took h with
      | @join k hk =>
          obtain ⟨p, hconn⟩ := joinRoom_conn d k
          exact Or.inl (hother k _ hconn (by simp))
      | @attach k p hk =>
          by_cases hp : p = r
          · exact Or.inr ⟨k, rfl, hp ▸ hk⟩
          · refine Or.inl (hother k (.inside p) ?_ (by simpa using hp))
            rw [Doc.setConn, (attachRoomObservers_rest docBusEnabled d p).2.2]
      | @leave k p hk =>
          obtain ⟨conn, hleave, hconn⟩ := leaveRoom_eq d k
          refine Or.inl (hother k conn (by rw [hleave, Doc.setConn]) ?_)
          rcases hconn with rfl | ⟨p, rfl⟩ <;> simp
      | _ => cases he

end CollabIDE.Collab.Rooms
