import CollabIDE.Collab.Reopen
import CollabIDE.Persistence.Turns
/-!
# A reopened document is never behind

While a room of a document is being created no other room of it has anything
left to write, and of the rooms that were created at most one has.  So what
`createRoom` reads is everything that was ever applied, and a document nobody
edits is never written.
-/

namespace CollabIDE.Collab.Reopen

open CollabIDE.Lib CollabIDE.Lib.Machine CollabIDE.Collab.Rooms
open CollabIDE.Persistence.DocStore CollabIDE.Persistence.Buffer CollabIDE.Persistence.Turns

/-- The document has the seed a room wrote where nothing was stored, or no seed
but what it was stored with. -/
def Seeded (start : Tables Update) (seed : Option (RoomId × String)) (ydoc : Finset Update) :
    Prop :=
  match seed with
  | some (r, content) => start = Tables.empty ∧ seedsIn ydoc = seedOf r content
  | none => start ≠ Tables.empty ∧ seedsIn ydoc = seedsIn (contents start)

theorem Seeded.of_seedsIn_eq {start : Tables Update} {seed : Option (RoomId × String)}
    {ydoc ydoc' : Finset Update} (h : Seeded start seed ydoc) (heq : seedsIn ydoc' = seedsIn ydoc) :
    Seeded start seed ydoc' := by
  unfold Seeded at h ⊢
  rwa [heq]

theorem Seeded.seedsIn_eq {start : Tables Update} {seed : Option (RoomId × String)}
    {ydoc ydoc' : Finset Update} (h : Seeded start seed ydoc) (h' : Seeded start seed ydoc') :
    seedsIn ydoc = seedsIn ydoc' := by
  cases seed with
  | none => exact h.2.trans h'.2.symm
  | some p => exact h.2.trans h'.2.symm

structure Inv (start : Tables Update) (docBusEnabled : Bool) (s : Site) : Prop where
  rooms : Rooms.Inv docBusEnabled s.doc
  sequenced : s.store.Sequenced
  current : ∀ r, Current s.store (s.work r).buffer
  counted : ∀ r, Counted (s.work r).buffer
  unopened : ∀ r, s.doc.creation r ≠ .ready → (s.work r).buffer = .fresh
  looking : ∀ r content, (s.work r).loading = .readingSnapshot content →
    s.doc.creation r = .building
  tail : ∀ r content snapshot, (s.work r).loading = .readingTail content snapshot →
    s.doc.creation r = .building ∧ snapshot = s.store.tables.docSnapshot
  seeding : ∀ r content, (s.work r).loading = .seeding content →
    s.doc.creation r = .building ∧ s.store.tables = Tables.empty
  final : ∀ r, s.doc.finalWrite r ≠ .none → Final (s.work r).buffer (s.work r).ticket
  settled : ∀ r, s.doc.finalWrite r = .settled → (s.work r).ticket ≤ (s.work r).buffer.settled
  kept : contents start ⊆ contents s.store.tables
  unstored : s.store.tables = Tables.empty → s.seed = none ∧ start = Tables.empty
  seeded : s.store.tables ≠ Tables.empty → Seeded start s.seed (contents s.store.tables)
  opened : ∀ r, s.doc.creation r = .ready →
    contents start ⊆ (s.work r).initial ∧ Seeded start s.seed (s.work r).initial
  unwritten_edit : ∀ r u, Unwritten (s.work r).buffer u → u.isSeed = false
  stored : ∀ r, s.doc.creation r = .ready → ∀ u ∈ (s.work r).ydoc,
    u ∈ contents s.store.tables ∨ Unwritten (s.work r).buffer u
  behind : ∀ r k, k < r → s.doc.creation r = .ready → s.doc.creation k = .ready →
    (s.work k).ydoc ⊆ (s.work r).initial
  grown : ∀ r, (s.work r).initial ⊆ (s.work r).ydoc
  edited : ∀ r, ¬ Quiet (s.work r).buffer → (s.work r).ydoc ≠ (s.work r).initial

/-- What the invariant says of one room, with `w` for its document and buffer. -/
structure RoomInv (start : Tables Update) (s : Site) (r : RoomId) (w : Work) : Prop where
  current : Current s.store w.buffer
  counted : Counted w.buffer
  unopened : s.doc.creation r ≠ .ready → w.buffer = .fresh
  looking : ∀ content, w.loading = .readingSnapshot content → s.doc.creation r = .building
  tail : ∀ content snapshot, w.loading = .readingTail content snapshot →
    s.doc.creation r = .building ∧ snapshot = s.store.tables.docSnapshot
  seeding : ∀ content, w.loading = .seeding content →
    s.doc.creation r = .building ∧ s.store.tables = Tables.empty
  final : s.doc.finalWrite r ≠ .none → Final w.buffer w.ticket
  settled : s.doc.finalWrite r = .settled → w.ticket ≤ w.buffer.settled
  opened : s.doc.creation r = .ready →
    contents start ⊆ w.initial ∧ Seeded start s.seed w.initial
  unwritten_edit : ∀ u, Unwritten w.buffer u → u.isSeed = false
  stored : s.doc.creation r = .ready → ∀ u ∈ w.ydoc,
    u ∈ contents s.store.tables ∨ Unwritten w.buffer u
  grown : w.initial ⊆ w.ydoc
  edited : ¬ Quiet w.buffer → w.ydoc ≠ w.initial

theorem contents_empty : contents (Tables.empty : Tables Update) = ∅ := by
  ext u
  simp [mem_contents, Tables.empty]

theorem inv_init (start : Start Update) (docBusEnabled : Bool) :
    Inv start.store.tables docBusEnabled (Site.init start) where
  rooms := inv_empty docBusEnabled
  sequenced := start.sequenced
  current := fun _ _ _ hw => nomatch hw
  counted := fun _ => rfl
  unopened := fun _ _ => rfl
  looking := fun _ _ h => nomatch h
  tail := fun _ _ _ h => nomatch h
  seeding := fun _ _ h => nomatch h
  final := fun _ h => absurd rfl h
  settled := fun _ h => nomatch h
  kept := Finset.Subset.refl _
  unstored := fun h => ⟨rfl, h⟩
  seeded := fun h => ⟨h, rfl⟩
  opened := fun _ h => nomatch h
  unwritten_edit := fun _ u h => absurd h (quiet_fresh.not_unwritten u)
  stored := fun _ h => nomatch h
  behind := fun _ _ _ h => nomatch h
  grown := fun _ => Finset.Subset.refl _
  edited := fun _ h => absurd quiet_fresh h

variable {start : Tables Update} {docBusEnabled : Bool} {s : Site} {r k : RoomId}

theorem Inv.room (hs : Inv start docBusEnabled s) (r : RoomId) : RoomInv start s r (s.work r) where
  current := hs.current r
  counted := hs.counted r
  unopened := hs.unopened r
  looking := hs.looking r
  tail := hs.tail r
  seeding := hs.seeding r
  final := hs.final r
  settled := hs.settled r
  opened := hs.opened r
  unwritten_edit := hs.unwritten_edit r
  stored := hs.stored r
  grown := hs.grown r
  edited := hs.edited r

theorem inv_of_rooms (hrooms : Rooms.Inv docBusEnabled s.doc) (hsequenced : s.store.Sequenced)
    (hkept : contents start ⊆ contents s.store.tables)
    (hunstored : s.store.tables = Tables.empty → s.seed = none ∧ start = Tables.empty)
    (hseeded : s.store.tables ≠ Tables.empty → Seeded start s.seed (contents s.store.tables))
    (hbehind : ∀ r k, k < r → s.doc.creation r = .ready → s.doc.creation k = .ready →
      (s.work k).ydoc ⊆ (s.work r).initial)
    (h : ∀ r, RoomInv start s r (s.work r)) : Inv start docBusEnabled s where
  rooms := hrooms
  sequenced := hsequenced
  current := fun r => (h r).current
  counted := fun r => (h r).counted
  unopened := fun r => (h r).unopened
  looking := fun r => (h r).looking
  tail := fun r => (h r).tail
  seeding := fun r => (h r).seeding
  final := fun r => (h r).final
  settled := fun r => (h r).settled
  kept := hkept
  unstored := hunstored
  seeded := hseeded
  opened := fun r => (h r).opened
  unwritten_edit := fun r => (h r).unwritten_edit
  stored := fun r => (h r).stored
  behind := hbehind
  grown := fun r => (h r).grown
  edited := fun r => (h r).edited

/-- One room's document and buffer may change, if no later room was opened
without what is new. -/
theorem inv_setWork {w : Work} (hs : Inv start docBusEnabled s) (h : RoomInv start s r w)
    (hinitial : w.initial = (s.work r).initial)
    (hbehind : ∀ j, r < j → s.doc.creation j = .ready → s.doc.creation r = .ready →
      w.ydoc ⊆ (s.work j).initial) : Inv start docBusEnabled (s.setWork r w) := by
  have hsame : ∀ j, (Function.update s.work r w j).initial = (s.work j).initial := by
    intro j
    by_cases hj : j = r
    · rw [hj, Function.update_self, hinitial]
    · rw [Function.update_of_ne hj]
  refine inv_of_rooms hs.rooms hs.sequenced hs.kept hs.unstored hs.seeded (fun j i hlt hj hi => ?_)
    fun j => ?_
  · change (Function.update s.work r w i).ydoc ⊆ (Function.update s.work r w j).initial
    rw [hsame]
    by_cases hir : i = r
    · subst hir
      rw [Function.update_self]
      exact hbehind j hlt hj hi
    · rw [Function.update_of_ne hir]
      exact hs.behind j i hlt hj hi
  · change RoomInv start (s.setWork r w) j (Function.update s.work r w j)
    by_cases hj : j = r
    · subst hj
      rw [Function.update_self]
      exact { h with }
    · rw [Function.update_of_ne hj]
      exact { hs.room j with }

/-! ## One room writes at a time -/

theorem quiet_of_unopened (hs : Inv start docBusEnabled s) (hr : s.doc.creation r ≠ .ready) :
    Quiet (s.work r).buffer := by
  rw [hs.unopened r hr]
  exact quiet_fresh

theorem quiet_of_settled (hs : Inv start docBusEnabled s) (hr : s.doc.finalWrite r = .settled) :
    Quiet (s.work r).buffer :=
  (hs.final r (by simp [hr])).quiet (hs.settled r hr)

/-- While a room is being created, every earlier one has settled its final write. -/
theorem settled_of_building (hs : Inv start docBusEnabled s) (hr : s.doc.creation r = .building)
    (hk : s.doc.creation k = .ready) : s.doc.finalWrite k = .settled := by
  have hentry := entry_of_building hs.rooms hr
  cases hwrite : s.doc.finalWrite k with
  | none =>
      have hentry' := hs.rooms.usable_entry k ⟨by simp [hk], by simp [hk], hwrite⟩
      rw [hentry, Option.some.injEq] at hentry'
      simp [← hentry', hr] at hk
  | pending =>
      exact absurd ((hs.rooms.pendingWrite_iff k).mpr hwrite)
        (hs.rooms.started r hentry (Or.inl hr) k)
  | settled => rfl

theorem quiet_of_building (hs : Inv start docBusEnabled s) (hr : s.doc.creation r = .building)
    (k : RoomId) : Quiet (s.work k).buffer := by
  by_cases hk : s.doc.creation k = .ready
  · exact quiet_of_settled hs (settled_of_building hs hr hk)
  · exact quiet_of_unopened hs hk

/-- One room at most has been created and has not settled its final write. -/
theorem eq_of_unsettled (hs : Inv start docBusEnabled s) (hr : s.doc.creation r = .ready)
    (hr' : s.doc.finalWrite r ≠ .settled) (hk : s.doc.creation k = .ready)
    (hk' : s.doc.finalWrite k ≠ .settled) : k = r := by
  have hwhere : ∀ j, s.doc.creation j = .ready → s.doc.finalWrite j ≠ .settled →
      s.doc.entry = some j ∨ s.doc.pendingWrite = some j := by
    intro j hj hj'
    cases hwrite : s.doc.finalWrite j with
    | none => exact Or.inl (hs.rooms.usable_entry j ⟨by simp [hj], by simp [hj], hwrite⟩)
    | pending => exact Or.inr ((hs.rooms.pendingWrite_iff j).mpr hwrite)
    | settled => exact absurd hwrite hj'
  rcases hwhere r hr hr' with hentry | hpending <;> rcases hwhere k hk hk' with hentry' | hpending'
  · exact Option.some.inj (hentry'.symm.trans hentry)
  · exact absurd hpending' (hs.rooms.started r hentry (Or.inr hr) k)
  · exact absurd hpending (hs.rooms.started k hentry' (Or.inr hk) r)
  · exact Option.some.inj (hpending'.symm.trans hpending)

theorem unsettled_of_busy (hs : Inv start docBusEnabled s) (hbusy : ¬ Quiet (s.work r).buffer) :
    s.doc.creation r = .ready ∧ s.doc.finalWrite r ≠ .settled := by
  refine ⟨?_, fun hsettled => hbusy (quiet_of_settled hs hsettled)⟩
  by_contra hnot
  exact hbusy (quiet_of_unopened hs hnot)

theorem quiet_of_ne (hs : Inv start docBusEnabled s) (hbusy : ¬ Quiet (s.work r).buffer)
    (hne : k ≠ r) : Quiet (s.work k).buffer := by
  by_contra hbusy'
  obtain ⟨hr, hr'⟩ := unsettled_of_busy hs hbusy
  obtain ⟨hk, hk'⟩ := unsettled_of_busy hs hbusy'
  exact hne (eq_of_unsettled hs hr hr' hk hk')

/-- Every update of an earlier room is stored once nothing is left to write. -/
theorem stored_of_quiet (hs : Inv start docBusEnabled s) (hk : s.doc.creation k = .ready)
    (hquiet : Quiet (s.work k).buffer) : (s.work k).ydoc ⊆ contents s.store.tables := fun u hu =>
  (hs.stored k hk u hu).resolve_right (hquiet.not_unwritten u)

/-! ## Steps that touch one buffer -/

theorem inv_setBuffer (hs : Inv start docBusEnabled s) {buffer : DocPersistence Update}
    {ticket : Nat}
    (hwriting : buffer.writing = (s.work r).buffer.writing)
    (hcounted : Counted buffer)
    (hunopened : s.doc.creation r ≠ .ready → buffer = .fresh)
    (hfinal : s.doc.finalWrite r ≠ .none → Final buffer ticket)
    (hsettled : s.doc.finalWrite r = .settled → ticket ≤ buffer.settled)
    (hunwritten : ∀ u, Unwritten buffer u ↔ Unwritten (s.work r).buffer u)
    (hquiet : Quiet (s.work r).buffer → Quiet buffer) :
    Inv start docBusEnabled (s.setWork r { s.work r with buffer, ticket }) := by
  have h := hs.room r
  refine inv_setWork hs ?_ rfl fun j => hs.behind j r
  exact
  { h with
    current := fun candidate through hw => h.current candidate through (hwriting ▸ hw)
    counted := hcounted
    unopened := hunopened
    final := hfinal
    settled := hsettled
    unwritten_edit := fun u hu => h.unwritten_edit u ((hunwritten u).mp hu)
    stored := fun hr u hu => (h.stored hr u hu).imp_right (hunwritten u).mpr
    edited := fun hbusy => h.edited (mt hquiet hbusy) }

theorem inv_flush (hs : Inv start docBusEnabled s) (hr : s.doc.creation r = .ready) :
    Inv start docBusEnabled (s.setWork r { s.work r with buffer := flush (s.work r).buffer }) :=
  inv_setBuffer hs rfl (counted_flush (hs.counted r)) (fun hnot => absurd hr hnot)
    (fun hwrite => final_flush_again (hs.final r hwrite)) (hs.settled r)
    (fun _ => unwritten_flush) quiet_flush

theorem inv_timerFires {buffer : DocPersistence Update} (hs : Inv start docBusEnabled s)
    (h : timerFires (s.work r).buffer = some buffer) :
    Inv start docBusEnabled (s.setWork r { s.work r with buffer }) := by
  simp only [timerFires, Option.ite_none_right_eq_some, Option.some.injEq] at h
  obtain ⟨htimer, rfl⟩ := h
  refine inv_flush hs ?_
  by_contra hnot
  rw [hs.unopened r hnot] at htimer
  cases htimer

theorem inv_detach (hs : Inv start docBusEnabled s) (hr : s.doc.creation r = .ready) :
    Inv start docBusEnabled (s.setWork r { s.work r with buffer := detach (s.work r).buffer }) := by
  obtain ⟨timer, heq⟩ := detach_eq (s.work r).buffer
  rw [heq]
  exact inv_setBuffer hs rfl (hs.counted r) (fun hnot => absurd hr hnot)
    (fun hwrite => have h := hs.final r hwrite; ⟨h.buffered_eq, h.later_empty, h.writing_lt⟩)
    (hs.settled r) (fun _ => Iff.rfl) (fun h => ⟨h.buffered_eq, h.chain_empty, h.writing_eq⟩)

/-! ## The turns of the rooms -/

theorem finalWrite_of_evicted {c : ConnId} (hs : Rooms.Inv docBusEnabled s.doc)
    (h : evicted s.doc c = some r) : s.doc.creation r = .ready ∧ s.doc.finalWrite r = .none := by
  cases hc : s.doc.conn c with
  | leaving pending =>
      simp only [evicted, hc, Option.ite_none_right_eq_some, Option.some.injEq] at h
      obtain ⟨⟨hready, -⟩, rfl⟩ := h
      exact ⟨hready, hs.entry_kept _ (entry_of_holds hs (Or.inr (Or.inr hc))).1⟩
  | _ => simp [evicted, hc] at h

theorem inv_controlWork (hs : Inv start docBusEnabled s) (e : Rooms.Event) :
    Inv start docBusEnabled { s with work := controlWork s e } := by
  cases e with
  | resumeLeave c =>
      cases hev : evicted s.doc c with
      | none => simpa only [controlWork, hev] using hs
      | some k =>
          obtain ⟨hready, hnone⟩ := finalWrite_of_evicted hs.rooms hev
          simp only [controlWork, hev]
          exact inv_setBuffer hs rfl (counted_flush (hs.counted k)) (fun hnot => absurd hready hnot)
            (fun hwrite => absurd hnone hwrite) (fun hwrite => by simp [hnone] at hwrite)
            (fun _ => unwritten_flush) quiet_flush
  | finishLeave c =>
      cases hc : s.doc.conn c with
      | evicting k =>
          simp only [controlWork, hc]
          exact inv_detach hs (hs.rooms.written_ready k (hs.rooms.evicting_written c k hc))
      | _ => simpa only [controlWork, hc] using hs
  | _ => exact hs

theorem inv_turn {doc : Doc} (hs : Inv start docBusEnabled s) (hrooms : Rooms.Inv docBusEnabled doc)
    (hcreation : ∀ r, (s.doc.creation r = .building → doc.creation r = .building) ∧
      (doc.creation r = .ready ↔ s.doc.creation r = .ready))
    (hfinal : ∀ r, doc.finalWrite r ≠ .none → Final (s.work r).buffer (s.work r).ticket)
    (hsettled : ∀ r, doc.finalWrite r = .settled → (s.work r).ticket ≤ (s.work r).buffer.settled) :
    Inv start docBusEnabled { s with doc } :=
  { hs with
    rooms := hrooms
    unopened := fun r hr => hs.unopened r (mt (hcreation r).2.mpr hr)
    looking := fun r content hr => (hcreation r).1 (hs.looking r content hr)
    tail := fun r content snapshot hr =>
      ⟨(hcreation r).1 (hs.tail r content snapshot hr).1, (hs.tail r content snapshot hr).2⟩
    seeding := fun r content hr =>
      ⟨(hcreation r).1 (hs.seeding r content hr).1, (hs.seeding r content hr).2⟩
    final := hfinal
    settled := hsettled
    opened := fun r hr => hs.opened r ((hcreation r).2.mp hr)
    stored := fun r hr => hs.stored r ((hcreation r).2.mp hr)
    behind := fun r k hlt hr hk =>
      hs.behind r k hlt ((hcreation r).2.mp hr) ((hcreation k).2.mp hk) }

theorem control_eq_some {e : Rooms.Event} {s' : Site} (h : control docBusEnabled s e = some s') :
    ∃ doc, Rooms.step docBusEnabled s.doc e = some doc ∧
      s' = { s with doc, work := controlWork s e } ∧ mayTurn s e = true ∧
      ∀ r found, e ≠ .create r found := by
  simp only [control, Option.ite_none_right_eq_some, Option.map_eq_some_iff] at h
  obtain ⟨hmay, doc, hdoc, rfl⟩ := h
  refine ⟨doc, hdoc, rfl, hmay, ?_⟩
  rintro r found rfl
  cases hmay

theorem inv_control {e : Rooms.Event} {s' : Site} (hs : Inv start docBusEnabled s)
    (h : control docBusEnabled s e = some s') : Inv start docBusEnabled s' := by
  obtain ⟨doc, hdoc, rfl, hmay, hcreate⟩ := control_eq_some h
  have hwork := inv_controlWork hs e
  refine inv_turn hwork (Rooms.inv_step hs.rooms hdoc) (step_creation hs.rooms hcreate hdoc)
    (fun k hk => ?_) (fun k hk => ?_)
  · rw [step_finalWrite hdoc] at hk
    cases e with
    | resumeLeave c =>
        by_cases hev : evicted s.doc c = some k
        · simp only [controlWork, hev, Function.update_self]
          exact final_flush (hs.counted k)
        · exact hwork.final k (by simpa [finalWriteStep, hev] using hk)
    | writeSettles j =>
        by_cases hj : j = k
        · subst hj
          simp only [Rooms.step, Option.ite_none_right_eq_some] at hdoc
          exact hwork.final j (by simp [hdoc.1])
        · exact hwork.final k (by simpa [finalWriteStep, hj] using hk)
    | _ => exact hwork.final k hk
  · rw [step_finalWrite hdoc] at hk
    cases e with
    | resumeLeave c =>
        by_cases hev : evicted s.doc c = some k
        · simp [finalWriteStep, hev] at hk
        · exact hwork.settled k (by simpa [finalWriteStep, hev] using hk)
    | writeSettles j =>
        by_cases hj : j = k
        · subst hj
          simpa [mayTurn, controlWork] using hmay
        · exact hwork.settled k (by simpa [finalWriteStep, hj] using hk)
    | _ => exact hwork.settled k hk

/-! ## Creating a room -/

theorem inv_setLoading (hs : Inv start docBusEnabled s) {loading : Loading}
    (hlooking : ∀ content, loading = .readingSnapshot content → s.doc.creation r = .building)
    (htail : ∀ content snapshot, loading = .readingTail content snapshot →
      s.doc.creation r = .building ∧ snapshot = s.store.tables.docSnapshot)
    (hseeding : ∀ content, loading = .seeding content →
      s.doc.creation r = .building ∧ s.store.tables = Tables.empty) :
    Inv start docBusEnabled (s.setWork r { s.work r with loading }) := by
  refine inv_setWork hs ?_ rfl fun j => hs.behind j r
  exact { hs.room r with looking := hlooking, tail := htail, seeding := hseeding }

theorem inv_absent (hs : Inv start docBusEnabled s) (hr : s.doc.creation r = .building)
    (hloading : (s.work r).loading = .lookingUp) :
    Inv start docBusEnabled { s with doc := s.doc.setCreation r .absent } := by
  have hready : ∀ j, (s.doc.setCreation r .absent).creation j = .ready →
      s.doc.creation j = .ready := by
    intro j hj
    simp only [Doc.setCreation, Function.update_apply] at hj
    grind
  have hbuilding : ∀ j loading, (s.work j).loading = loading → loading ≠ .lookingUp →
      s.doc.creation j = .building → (s.doc.setCreation r .absent).creation j = .building := by
    rintro j loading rfl hj hbuilding
    have hne : j ≠ r := fun heq => hj (heq ▸ hloading)
    simpa [Doc.setCreation, Function.update_apply, hne] using hbuilding
  exact
  { hs with
    rooms := inv_create hs.rooms hr false
    unopened := by
      intro j hj
      by_cases hjr : j = r
      · exact hs.unopened j (by simp [hjr, hr])
      · exact hs.unopened j (by simpa [Doc.setCreation, Function.update_apply, hjr] using hj)
    looking := fun j content hj => hbuilding j _ hj (by simp) (hs.looking j content hj)
    tail := fun j content snapshot hj =>
      ⟨hbuilding j _ hj (by simp) (hs.tail j content snapshot hj).1,
        (hs.tail j content snapshot hj).2⟩
    seeding := fun j content hj =>
      ⟨hbuilding j _ hj (by simp) (hs.seeding j content hj).1, (hs.seeding j content hj).2⟩
    opened := fun j hj => hs.opened j (hready j hj)
    stored := fun j hj => hs.stored j (hready j hj)
    behind := fun j k hlt hj hk => hs.behind j k hlt (hready j hj) (hready k hk) }

theorem newest (hs : Inv start docBusEnabled s) (hentry : s.doc.entry = some r)
    (hk : s.doc.creation k ≠ .unborn) : k ≤ r := by
  by_contra hlt
  have hnext := hs.rooms.entry_newest r hentry
  exact hk (hs.rooms.unborn k (hnext ▸ Nat.succ_le_of_lt (Nat.lt_of_not_le hlt))).1

theorem stored_of_ready (hs : Inv start docBusEnabled s) (hr : s.doc.creation r = .ready) :
    s.store.tables ≠ Tables.empty := by
  intro hempty
  obtain ⟨hnone, hstart⟩ := hs.unstored hempty
  have hseeded := (hs.opened r hr).2
  rw [hnone] at hseeded
  exact hseeded.1 hstart

theorem inv_open (hs : Inv start docBusEnabled s) (hr : s.doc.creation r = .building)
    {tables : Tables Update} {seed : Option (RoomId × String)}
    (hsequenced : Store.Sequenced ⟨tables, s.store.nextId, s.store.clock⟩)
    (hkept : contents s.store.tables ⊆ contents tables) (hstored : tables ≠ Tables.empty)
    (hseeded : Seeded start seed (contents tables))
    (hseed : s.store.tables ≠ Tables.empty → s.seed = seed) :
    Inv start docBusEnabled
      { doc := s.doc.setCreation r .ready
        work := Function.update s.work r ((s.work r).opened (contents tables))
        store := ⟨tables, s.store.nextId, s.store.clock⟩
        seed := seed } := by
  have hentry := entry_of_building hs.rooms hr
  have hquiet := quiet_of_building hs hr
  -- nothing else of the document is being created
  have hother : ∀ j, j ≠ r → s.doc.creation j ≠ .building := by
    intro j hj hbuilding
    exact hj (Option.some.inj ((entry_of_building hs.rooms hbuilding).symm.trans hentry))
  have hready : ∀ j, j ≠ r → (s.doc.setCreation r .ready).creation j = s.doc.creation j :=
    fun j hj => Function.update_of_ne hj _ _
  have hwriting : ∀ j, Current ⟨tables, s.store.nextId, s.store.clock⟩ (s.work j).buffer := by
    intro j candidate through hw
    rw [(hquiet j).writing_eq] at hw
    cases hw
  refine inv_of_rooms (inv_create hs.rooms hr true) hsequenced (hs.kept.trans hkept)
    (fun hempty => absurd hempty hstored) (fun _ => hseeded) (fun j i hlt hj hi => ?_) fun j => ?_
  · dsimp only at *
    have hir : i ≠ r := by
      rintro rfl
      have hjr : j ≠ i := Nat.ne_of_gt hlt
      rw [hready j hjr] at hj
      exact absurd (newest hs hentry (by simp [hj])) (Nat.not_le_of_lt hlt)
    rw [hready i hir] at hi
    rw [Function.update_of_ne hir]
    by_cases hjr : j = r
    · rw [hjr, Function.update_self]
      exact (stored_of_quiet hs hi (hquiet i)).trans hkept
    · rw [hready j hjr] at hj
      rw [Function.update_of_ne hjr]
      exact hs.behind j i hlt hj hi
  · have hroom := hs.room j
    dsimp only
    by_cases hjr : j = r
    · subst hjr
      rw [Function.update_self]
      exact
      { current := hwriting j
        counted := hroom.counted
        unopened := fun hnot => absurd (Function.update_self _ _ _) hnot
        looking := fun _ h => nomatch h
        tail := fun _ _ h => nomatch h
        seeding := fun _ h => nomatch h
        final := hroom.final
        settled := hroom.settled
        opened := fun _ => ⟨hs.kept.trans hkept, hseeded⟩
        unwritten_edit := hroom.unwritten_edit
        stored := fun _ _ hu => Or.inl hu
        grown := Finset.Subset.refl _
        edited := fun hbusy => absurd (hquiet j) hbusy }
    · rw [Function.update_of_ne hjr]
      have hstays : ∀ {P : Prop}, (s.doc.creation j = .ready → P) →
          (s.doc.setCreation r .ready).creation j = .ready → P := fun h hj =>
        h ((hready j hjr).symm.trans hj)
      exact
      { hroom with
        current := hwriting j
        unopened := fun hnot => hroom.unopened fun hj => hnot ((hready j hjr).trans hj)
        looking := fun content' h => absurd (hroom.looking content' h) (hother j hjr)
        tail := fun content' snapshot h =>
          absurd (hroom.tail content' snapshot h).1 (hother j hjr)
        seeding := fun content' h => absurd (hroom.seeding content' h).1 (hother j hjr)
        opened := hstays fun hj => hseed (stored_of_ready hs hj) ▸ hroom.opened hj
        stored := hstays fun hj u hu =>
          Or.inl (hkept (stored_of_quiet hs hj (hquiet j) hu)) }

theorem inv_lookUp {docId : String} {file : Option String} {s' : Site}
    (hs : Inv start docBusEnabled s) (h : step docBusEnabled docId s (.lookUp r file) = some s') :
    Inv start docBusEnabled s' := by
  obtain ⟨hr, hloading, ⟨-, rfl⟩ | ⟨content, -, rfl⟩⟩ := lookUp_eq_some h
  · exact inv_absent hs hr hloading
  · exact inv_setLoading hs (fun _ _ => hr) (fun _ _ h => nomatch h) (fun _ h => nomatch h)

theorem inv_readSnapshot {docId : String} {s' : Site} (hs : Inv start docBusEnabled s)
    (h : step docBusEnabled docId s (.readSnapshot r) = some s') : Inv start docBusEnabled s' := by
  obtain ⟨content, hloading, rfl⟩ := readSnapshot_eq_some h
  refine inv_setLoading hs (fun _ h => nomatch h) ?_ (fun _ h => nomatch h)
  rintro _ _ ⟨⟩
  exact ⟨hs.looking r content hloading, rfl⟩

theorem load_exists (hs : s.store.Sequenced) :
    (load s.store.tables).exists = true ↔ s.store.tables ≠ Tables.empty := by
  rcases htables : s.store.tables with ⟨- | snapshot, rows⟩
  · have hlength : (findTail ⟨none, rows⟩ none).length = rows.length := by
      have hrows : ∀ row ∈ rows, updateIdOrZero (υ := Update) none < row.id := fun row hrow =>
        hs.id_pos row (htables ▸ hrow)
      rw [findTail, orderByIdAsc, List.length_insertionSort,
        List.filter_eq_self.mpr (by simpa using hrows)]
    simp only [load, loadedOf, findSnapshot, hlength]
    simp [Tables.empty, List.length_pos_iff]
  · simp [load, loadedOf, findSnapshot, Tables.empty]

theorem inv_readTail {docId : String} {s' : Site} (hs : Inv start docBusEnabled s)
    (h : step docBusEnabled docId s (.readTail r) = some s') : Inv start docBusEnabled s' := by
  obtain ⟨content, snapshot, hloading, hcases⟩ := readTail_eq_some h
  obtain ⟨hr, rfl⟩ := hs.tail r content snapshot hloading
  change (load s.store.tables).exists = true ∧ s.doc.creation r = .building ∧
    s' = { s.setWork r ((s.work r).opened (rebuild (load s.store.tables))) with
      doc := s.doc.setCreation r .ready } ∨ (load s.store.tables).exists = false ∧ _ at hcases
  rw [rebuild_load] at hcases
  rcases hcases with ⟨hexists, -, rfl⟩ | ⟨hexists, rfl⟩
  · have hstored := (load_exists hs.sequenced).mp hexists
    exact inv_open hs hr hs.sequenced (Finset.Subset.refl _) hstored (hs.seeded hstored)
      fun _ => rfl
  · refine inv_setLoading hs (fun _ h => nomatch h) (fun _ _ h => nomatch h) fun _ _ => ⟨hr, ?_⟩
    by_contra hne
    exact Bool.eq_false_iff.mp hexists ((load_exists hs.sequenced).mpr hne)

theorem inv_writeSeed {docId : String} {s' : Site} (hs : Inv start docBusEnabled s)
    (h : step docBusEnabled docId s (.writeSeed r) = some s') : Inv start docBusEnabled s' := by
  obtain ⟨content, hloading, -, rfl⟩ := writeSeed_eq_some h
  obtain ⟨hr, htables⟩ := hs.seeding r content hloading
  have hcontents : contents (writeSnapshot s.store.tables (seedOf r content) 0) =
      seedOf r content := by
    rw [htables, contents_writeSnapshot_zero _ rfl, contents_empty, Finset.empty_union]
  have hnext : 0 < s.store.nextId := Nat.zero_lt_of_lt hs.sequenced.watermark_lt
  have hsequenced : Store.Sequenced
      ⟨writeSnapshot s.store.tables (seedOf r content) 0, s.store.nextId, s.store.clock⟩ := by
    rw [htables]
    exact ⟨fun _ h => (nomatch h), hnext, fun _ h => (nomatch h)⟩
  have hseeds : seedsIn (contents (writeSnapshot s.store.tables (seedOf r content) 0)) =
      seedOf r content := by
    rw [hcontents, seedsIn_seedOf]
  have hkept : contents s.store.tables ⊆
      contents (writeSnapshot s.store.tables (seedOf r content) 0) := by
    simp [htables, contents_empty]
  have hseeded : Seeded start (some (r, content))
      (contents (writeSnapshot s.store.tables (seedOf r content) 0)) :=
    ⟨(hs.unstored htables).2, hseeds⟩
  have hopen := inv_open hs hr hsequenced hkept (by simp [writeSnapshot, Tables.empty]) hseeded
    fun hne => absurd htables hne
  rw [hcontents] at hopen
  exact hopen

/-! ## Editing and writing -/

theorem inv_edit {c : ConnId} (hs : Inv start docBusEnabled s) (hc : (s.doc.conn c).Holds r)
    (edits : Finset Nat) (byteLength : Nat) :
    Inv start docBusEnabled (s.setWork r (applyEdits (s.work r) edits byteLength)) := by
  obtain ⟨hentry, hr⟩ := entry_of_holds hs.rooms hc
  have hnone := hs.rooms.entry_kept r hentry
  simp only [applyEdits]
  set update := edits.image Update.edit \ (s.work r).ydoc with hupdate
  by_cases hempty : update = ∅
  · rw [if_pos hempty]
    rwa [Site.setWork, Function.update_eq_self]
  rw [if_neg hempty]
  have hedit : ∀ u ∈ update, u.isSeed = false := by
    intro u hu
    obtain ⟨n, -, rfl⟩ := Finset.mem_image.mp (Finset.mem_sdiff.mp hu).1
    rfl
  have hgrown : (s.work r).initial ⊂ (s.work r).ydoc ∪ update := by
    obtain ⟨u, hu⟩ := Finset.nonempty_iff_ne_empty.mpr hempty
    refine Finset.ssubset_iff_of_subset ((hs.grown r).trans Finset.subset_union_left) |>.mpr
      ⟨u, Finset.mem_union_right _ hu, fun hinitial => ?_⟩
    exact (Finset.mem_sdiff.mp hu).2 (hs.grown r hinitial)
  have h := hs.room r
  -- the registered room is the newest, so no later one started without its edits
  refine inv_setWork hs ?_ rfl fun j hlt hj _ =>
    absurd (newest hs hentry (by simp [hj])) (Nat.not_le_of_lt hlt)
  exact
  { h with
    current := fun candidate through hw => h.current candidate through (onUpdate_writing _ _ ▸ hw)
    counted := counted_onUpdate h.counted _
    unopened := fun hnot => absurd hr hnot
    final := fun hwrite => absurd hnone hwrite
    settled := fun hwrite => by simp [hnone] at hwrite
    unwritten_edit := by
      intro u hu
      rcases unwritten_onUpdate.mp hu with hold | hnew
      · exact h.unwritten_edit u hold
      · exact hedit u hnew
    stored := by
      intro _ u hu
      rw [unwritten_onUpdate]
      rcases Finset.mem_union.mp hu with hold | hnew
      · exact (h.stored hr u hold).imp_right Or.inl
      · exact Or.inr (Or.inr hnew)
    grown := hgrown.subset
    edited := fun _ => hgrown.ne' }

theorem setBuffer_same (work : RoomId → Work) (r : RoomId) (buffer : DocPersistence Update)
    (j : RoomId) : (Function.update work r { work r with buffer } j).ydoc = (work j).ydoc ∧
      (Function.update work r { work r with buffer } j).initial = (work j).initial := by
  by_cases hj : j = r
  · rw [hj, Function.update_self]
    exact ⟨rfl, rfl⟩
  · rw [Function.update_of_ne hj]
    exact ⟨rfl, rfl⟩

theorem succeeds_of_takesTurn {w : Work} {e : WriteEvent Update} (h : takesTurn w e = true) :
    e.Succeeds := by
  cases e with
  | materialize succeeds => cases succeeds <;> trivial
  | compact outage => cases outage <;> trivial
  | _ => trivial

theorem inv_write {docId : String} {e : WriteEvent Update} {store : Store Update}
    {buffer : DocPersistence Update} (hs : Inv start docBusEnabled s)
    (hok : ∀ mergedBytes, e ≠ .appendFails mergedBytes) (hsplits : e.Splits s.store.tables)
    (h : writeStep docId s.store (s.work r).buffer e = some (store, buffer)) :
    Inv start docBusEnabled { s.setWork r { s.work r with buffer } with store } := by
  have hkept := kept_turn hs.sequenced (hs.current r) hsplits h
  have hquiet := fun hb : Quiet (s.work r).buffer => writeStep_quiet hb h
  have hcounted := counted_turn (hs.counted r) h
  have hr : s.doc.creation r = .ready := by
    by_contra hnot
    rw [hs.unopened r hnot] at h
    cases e <;> cases h
  -- the tables move under a busy buffer only, and then every other one is quiet
  have hbuilding : ∀ j, s.doc.creation j = .building → store = s.store := fun j hj =>
    (hquiet (quiet_of_building hs hj r)).1
  have hother : store ≠ s.store → ∀ j, j ≠ r → Quiet (s.work j).buffer := fun hne _ hj =>
    quiet_of_ne hs (fun hb => hne (hquiet hb).1) hj
  have hwritten := hs.room r
  have hstored := stored_of_ready hs hr
  refine inv_of_rooms hs.rooms hkept.sequenced (hs.kept.trans hkept.stored)
    (fun hempty => absurd (hkept.unstored hempty) hstored) (fun _ => ?_)
    (fun j k hlt hj hk => ?_) fun j => ?_
  · refine (hs.seeded hstored).of_seedsIn_eq (Finset.ext fun u => ?_)
    simp only [seedsIn, Finset.mem_filter]
    constructor
    · rintro ⟨hu, hseed'⟩
      refine ⟨(hkept.stored_only u hu).resolve_right fun hunwritten => ?_, hseed'⟩
      simp [hs.unwritten_edit r u hunwritten] at hseed'
    · rintro ⟨hu, hseed'⟩
      exact ⟨hkept.stored hu, hseed'⟩
  · simpa only [Site.setWork, setBuffer_same] using hs.behind j k hlt hj hk
  · change RoomInv start { s.setWork r { s.work r with buffer } with store } j
      (Function.update s.work r { s.work r with buffer } j)
    by_cases hjr : j = r
    · subst hjr
      rw [Function.update_self]
      have hnot : s.doc.creation j ≠ .building := by simp [hr]
      exact
      { hwritten with
        current := hkept.current
        counted := hcounted
        unopened := fun hunopened => absurd hr hunopened
        tail := fun content snapshot htail => absurd (hwritten.tail content snapshot htail).1 hnot
        seeding := fun content hseeding => absurd (hwritten.seeding content hseeding).1 hnot
        final := fun hwrite => final_turn (hwritten.final hwrite) hok h
        settled := fun hwrite => (hwritten.settled hwrite).trans (settled_turn h)
        unwritten_edit := fun u hu => hwritten.unwritten_edit u (hkept.unwritten_only u hu)
        stored := by
          intro _ u hu
          rcases hwritten.stored hr u hu with hstored | hunwritten
          · exact Or.inl (hkept.stored hstored)
          · exact (hkept.written u hunwritten).symm
        edited := fun hbusy => hwritten.edited fun hb => hbusy (hquiet hb).2 }
    · rw [Function.update_of_ne hjr]
      have hroom := hs.room j
      exact
      { hroom with
        current := by
          by_cases hsame : store = s.store
          · exact hsame ▸ hroom.current
          · intro candidate through hw
            rw [(hother hsame j hjr).writing_eq] at hw
            cases hw
        tail := by
          intro content snapshot htail
          obtain ⟨hbuilds, hsnapshot⟩ := hroom.tail content snapshot htail
          exact ⟨hbuilds, by rw [hbuilding j hbuilds, hsnapshot]⟩
        seeding := by
          intro content hseeding
          obtain ⟨hbuilds, hempty⟩ := hroom.seeding content hseeding
          exact ⟨hbuilds, by rw [hbuilding j hbuilds, hempty]⟩
        stored := fun hj u hu => (hroom.stored hj u hu).imp_left fun hstored =>
          hkept.stored hstored }

theorem inv_tick (hs : Inv start docBusEnabled s) (milliseconds : Int) :
    Inv start docBusEnabled
      { s with store := { s.store with clock := s.store.clock + milliseconds } } :=
  { hs with
    sequenced := ⟨hs.sequenced.id_pos, hs.sequenced.watermark_lt, hs.sequenced.id_lt⟩
    current := hs.current }

theorem inv_step {docId : String} {e : Event} {s' : Site} (hs : Inv start docBusEnabled s)
    (hsplits : Splits s e) (h : step docBusEnabled docId s e = some s') :
    Inv start docBusEnabled s' := by
  cases e with
  | control e => exact inv_control hs h
  | lookUp r file => exact inv_lookUp hs h
  | readSnapshot r => exact inv_readSnapshot hs h
  | readTail r => exact inv_readTail hs h
  | writeSeed r => exact inv_writeSeed hs h
  | edit c edits byteLength =>
      obtain ⟨r, hc, rfl⟩ := edit_eq_some h
      exact inv_edit hs hc edits byteLength
  | timerFires r =>
      obtain ⟨buffer, hbuffer, rfl⟩ := timerFires_eq_some h
      exact inv_timerFires hs hbuffer
  | flush r =>
      obtain ⟨hr, rfl⟩ := flush_eq_some h
      exact inv_flush hs hr
  | write r e =>
      simp only [step, Option.ite_none_right_eq_some, Option.map_eq_some_iff] at h
      obtain ⟨hturn, ⟨store, buffer⟩, hwrite, rfl⟩ := h
      refine inv_write hs (fun mergedBytes heq => ?_) hsplits hwrite
      exact succeeds_of_takesTurn (heq ▸ hturn)
  | tick milliseconds =>
      simp only [step, Option.some.injEq] at h
      exact h ▸ inv_tick hs milliseconds

/-- Rows that are stamped as they are appended stay in order while the clock is
not set back. -/
theorem ordered_step {docId : String} {e : Event} {s' : Site} (hs : Inv start docBusEnabled s)
    (hordered : s.store.Ordered) (hforward : setsBack e = false)
    (h : step docBusEnabled docId s e = some s') : s'.store.Ordered := by
  cases e with
  | control e =>
      obtain ⟨doc, -, rfl, -⟩ := control_eq_some h
      exact hordered
  | lookUp r file =>
      obtain ⟨-, -, ⟨-, rfl⟩ | ⟨content, -, rfl⟩⟩ := lookUp_eq_some h <;> exact hordered
  | readSnapshot r =>
      obtain ⟨content, -, rfl⟩ := readSnapshot_eq_some h
      exact hordered
  | readTail r =>
      obtain ⟨content, snapshot, -, ⟨-, -, rfl⟩ | ⟨-, rfl⟩⟩ := readTail_eq_some h <;>
        exact hordered
  | writeSeed r =>
      obtain ⟨content, hloading, -, rfl⟩ := writeSeed_eq_some h
      have htables := (hs.seeding r content hloading).2
      have hnext : 0 < s.store.nextId := Nat.zero_lt_of_lt hordered.watermark_lt
      simp only [htables]
      exact ⟨fun _ h => (nomatch h), hnext, fun _ h => (nomatch h), fun _ h => (nomatch h)⟩
  | edit c edits byteLength =>
      obtain ⟨r, -, rfl⟩ := edit_eq_some h
      exact hordered
  | timerFires r =>
      obtain ⟨buffer, -, rfl⟩ := timerFires_eq_some h
      exact hordered
  | flush r =>
      obtain ⟨-, rfl⟩ := flush_eq_some h
      exact hordered
  | write r e =>
      simp only [step, Option.ite_none_right_eq_some, Option.map_eq_some_iff] at h
      obtain ⟨-, ⟨store, buffer⟩, hwrite, rfl⟩ := h
      exact ordered_turn hordered (hs.current r) hwrite
  | tick milliseconds =>
      simp only [step, Option.some.injEq] at h
      have hnonneg : 0 ≤ milliseconds := by simpa [setsBack] using hforward
      exact h ▸ hordered.tick hnonneg

theorem splits_of_ordered (hordered : s.store.Ordered) (e : Event) : Splits s e := by
  cases e with
  | write r e => exact hordered.splits e
  | _ => trivial

theorem inv_run {docId : String} {start : Start Update} {events : List Event}
    (h : run (step docBusEnabled docId) (Site.init start) events = some s)
    (hsplits : Meets (step docBusEnabled docId) Splits (Site.init start) events) :
    Inv start.store.tables docBusEnabled s :=
  run_invariant_of_meets (fun _ _ _ => inv_step) (inv_init start docBusEnabled) hsplits h

end CollabIDE.Collab.Reopen
