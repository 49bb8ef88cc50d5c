import CollabIDE.Collab.FileContent
/-!
# `flushAllRooms`

The documents of one process beside a call of `flushAllRooms`: it awaits the
rooms it finds in the map, flushes each and awaits the flush.  A run and the
shutdown call it before they rely on the stored files.  Flushes of other calls
are events of the documents.
-/

namespace CollabIDE.Collab.FlushAll

open CollabIDE.Lib.Machine CollabIDE.Collab.Rooms CollabIDE.Collab.Reopen
open CollabIDE.Collab.FileContent CollabIDE.Persistence.DocStore CollabIDE.Persistence.Buffer
open CollabIDE.Persistence.Tickets

/-- Where the call is with a room. -/
inductive Stage
  /-- Awaiting the promise of the room. -/
  | awaiting
  /-- Awaiting the flush with this number. -/
  | flushing (ticket : Nat)
  | done
  deriving DecidableEq

structure Call where
  /-- The rooms of `rooms.values()`. -/
  waits : String → Option (RoomId × Stage)
  resolved : Bool
  /-- The documents of the rooms then, the live ones and those being evicted. -/
  applied : String → RoomId → Finset Update
  /-- The entries of `pendingWrites` then. -/
  leaving : String → Option RoomId

structure Process where
  /-- The documents that are ever opened. -/
  docIds : List String
  file : String → File
  call : Option Call

def Process.init (docIds : List String) (start : String → Start Update)
    (content : String → Finset Update) : Process :=
  ⟨docIds, fun docId => File.init (start docId) (content docId), none⟩

def Process.setFile (s : Process) (docId : String) (f : File) : Process :=
  { s with file := Function.update s.file docId f }

/-- `flushAllRooms` up to its first await. -/
def flushAllRooms (s : Process) : Call where
  waits docId := (s.file docId).site.doc.entry.map fun r => (r, .awaiting)
  resolved := false
  applied docId r :=
    let site := (s.file docId).site
    if site.doc.creation r = .ready ∧ site.doc.finalWrite r ≠ .settled then (site.work r).ydoc
    else ∅
  leaving docId := (s.file docId).site.doc.pendingWrite

def Call.setWait (call : Call) (docId : String) (r : RoomId) (stage : Stage) : Call :=
  { call with waits := Function.update call.waits docId (some (r, stage)) }

inductive Event
  /-- What happens to a document. -/
  | file (docId : String) (e : Reopen.Event)
  | flushAllRooms
  /-- The call is past `await pending`, for this document. -/
  | resume (docId : String)
  /-- And past `await room.persistence.flush()`. -/
  | flushed (docId : String)
  | resolve

def step (docBusEnabled : Bool) (s : Process) : Event → Option Process
  | .file docId e =>
    if docId ∈ s.docIds then
      (FileContent.step docBusEnabled docId (s.file docId) e).map fun f => s.setFile docId f
    else none
  | .flushAllRooms =>
    match s.call with
    | none => some { s with call := some (flushAllRooms s) }
    | some _ => none
  | .resume docId =>
    match s.call with
    | some call =>
      match call.waits docId with
      | some (r, .awaiting) =>
        match (s.file docId).site.doc.creation r with
        | .ready =>
          (FileContent.step docBusEnabled docId (s.file docId) (.flush r)).map fun f =>
            { s.setFile docId f with
              call := some (call.setWait docId r (.flushing (f.site.work r).buffer.requested)) }
        | .absent => some { s with call := some (call.setWait docId r .done) }
        | _ => none
      | _ => none
    | none => none
  | .flushed docId =>
    match s.call with
    | some call =>
      match call.waits docId with
      | some (r, .flushing ticket) =>
        if ticket ≤ ((s.file docId).site.work r).buffer.settled then
          some { s with call := some (call.setWait docId r .done) }
        else none
      | _ => none
    | none => none
  | .resolve =>
    match s.call with
    | some call =>
      if ∀ docId ∈ s.docIds, ∀ wait ∈ call.waits docId, wait.2 = .done then
        some { s with call := some { call with resolved := true } }
      else none
    | none => none

/-! ## When a call saves everything -/

/-- Once the call has resolved, every update applied before it is saved, in
whichever room it was. -/
def FlushedAll (s : Process) : Prop :=
  ∀ call, s.call = some call → call.resolved = true →
    ∀ docId r, ∀ u ∈ call.applied docId r, Saved (s.file docId) u

/-- A room that has nothing left to write holds nothing that the text of its file
lacks. -/
def TextFollows (f : File) : Prop :=
  ∀ r, f.site.doc.creation r = .ready → f.site.doc.finalWrite r ≠ .settled →
    ToWrite (f.site.work r).buffer ∨ (f.site.work r).ydoc ⊆ f.content

/-- A room that was being evicted at the call, and had no successor in the map,
has settled its final write. -/
def EvictedSettled (s : Process) (call : Call) : Prop :=
  ∀ docId r, call.leaving docId = some r → call.waits docId = none →
    (s.file docId).site.doc.finalWrite r = .settled

/-- What the call relies on: no text is behind its log when it is made, the rooms
it does not look at are written when it resolves, and no compaction reads while a
row too young to fold lies below one that is old enough. -/
def Suffices (s : Process) : Event → Prop
  | .file docId e => Splits (s.file docId).site e
  | .flushAllRooms => ∀ docId, TextFollows (s.file docId)
  | .resolve => ∀ call, s.call = some call → EvictedSettled s call
  | .resume _ | .flushed _ => True

/-! ## The invariant -/

structure CallInv (s : Process) (call : Call) : Prop where
  applied : ∀ docId r, ∀ u ∈ call.applied docId r,
    (s.file docId).site.doc.creation r = .ready ∧ u ∈ ((s.file docId).site.work r).ydoc
  listed : ∀ docId, call.waits docId ≠ none ∨ call.leaving docId ≠ none → docId ∈ s.docIds
  awaited : ∀ docId r, ∀ u ∈ call.applied docId r, Saved (s.file docId) u ∨
    Awaits (contents (s.file docId).site.store.tables) ((s.file docId).site.work r).buffer u
  flushing : ∀ docId r ticket, call.waits docId = some (r, .flushing ticket) →
    ∀ u ∈ call.applied docId r, Saved (s.file docId) u ∨
      Owed (contents (s.file docId).site.store.tables) ((s.file docId).site.work r).buffer ticket u
  done : ∀ docId r, call.waits docId = some (r, .done) →
    ∀ u ∈ call.applied docId r, Saved (s.file docId) u
  elsewhere : ∀ docId r, ∀ u ∈ call.applied docId r, Saved (s.file docId) u ∨
    (∃ stage, call.waits docId = some (r, stage)) ∨ call.leaving docId = some r
  /-- A room in the map comes after the final write that was pending then. -/
  after : ∀ docId r stage k, call.waits docId = some (r, stage) → call.leaving docId = some k →
    (s.file docId).site.doc.finalWrite k = .settled ∨
      stage = .awaiting ∧ (s.file docId).site.doc.creation r = .waiting k
  resolved : call.resolved = true →
    ∀ docId r, ∀ u ∈ call.applied docId r, Saved (s.file docId) u

structure Inv (start : String → Start Update) (docBusEnabled : Bool) (s : Process) : Prop where
  site : ∀ docId, Reopen.Inv (start docId).store.tables docBusEnabled (s.file docId).site
  covered : ∀ docId, Covered (start docId).store.tables (s.file docId)
  blocked : ∀ docId, Blocked (s.file docId).site.doc
  unlisted : ∀ docId, docId ∉ s.docIds → (s.file docId).site.doc = Doc.empty
  call : ∀ call, s.call = some call → CallInv s call

variable {start : String → Start Update} {docBusEnabled : Bool} {s s' : Process}

theorem inv_init (docIds : List String) (start : String → Start Update)
    (content : String → Finset Update) :
    Inv start docBusEnabled (Process.init docIds start content) where
  site := fun docId => Reopen.inv_init (start docId) docBusEnabled
  covered := fun docId => covered_init (start docId) (content docId)
  blocked := fun _ _ _ h => by cases h
  unlisted := fun _ _ => rfl
  call := fun _ h => by cases h

theorem callInv_setFile {call : Call} {docId : String} {f : File} {e : Reopen.Event}
    (hs : Reopen.Inv (start docId).store.tables docBusEnabled (s.file docId).site)
    (hc : Covered (start docId).store.tables (s.file docId)) (hcall : CallInv s call)
    (hsplits : Splits (s.file docId).site e)
    (h : FileContent.step docBusEnabled docId (s.file docId) e = some f) :
    CallInv (s.setFile docId f) call := by
  have hgrown := grown_step hs hc hsplits h
  have hall : ∀ other, Grown (s.file other) ((s.setFile docId f).file other) := by
    intro other
    by_cases ho : other = docId
    · subst ho
      simpa [Process.setFile] using hgrown
    · simpa [Process.setFile, ho] using Grown.refl _
  refine ⟨fun other r u hu => ?_, hcall.listed, fun other r u hu => ?_,
    fun other r ticket hw u hu => ?_,
    fun other r hw u hu => (hall other).saved u (hcall.done other r hw u hu),
    fun other r u hu => (hcall.elsewhere other r u hu).imp_left ((hall other).saved u),
    fun other r stage k hw hk => ?_,
    fun hr other r u hu => (hall other).saved u (hcall.resolved hr other r u hu)⟩
  · obtain ⟨hready, hydoc⟩ := hcall.applied other r u hu
    exact ⟨(hall other).ready r hready, (hall other).ydoc r hready hydoc⟩
  · rcases hcall.awaited other r u hu with hsaved | hawaits
    · exact Or.inl ((hall other).saved u hsaved)
    · by_cases ho : other = docId
      · subst ho
        obtain ⟨hready, hydoc⟩ := hcall.applied other r u hu
        have hnext := awaits_step hs hc hsplits h hready hydoc hawaits
        simp only [Process.setFile, Function.update_self]
        exact hnext.symm
      · simpa only [Process.setFile, Function.update_of_ne ho] using Or.inr hawaits
  · rcases hcall.flushing other r ticket hw u hu with hsaved | howed
    · exact Or.inl ((hall other).saved u hsaved)
    · by_cases ho : other = docId
      · subst ho
        obtain ⟨hready, hydoc⟩ := hcall.applied other r u hu
        have hnext := owed_step hs hc hsplits h hready hydoc howed
        simp only [Process.setFile, Function.update_self]
        exact hnext.symm
      · simpa only [Process.setFile, Function.update_of_ne ho] using Or.inr howed
  · rcases hcall.after other r stage k hw hk with hsettled | ⟨hstage, hwaiting⟩
    · exact Or.inl ((hall other).settled k hsettled)
    · by_cases ho : other = docId
      · subst ho
        simp only [Process.setFile, Function.update_self]
        rcases doc_step h with hsame | ⟨turn, -, hturn⟩
        · exact Or.inr ⟨hstage, hsame ▸ hwaiting⟩
        · exact (waiting_step hs.rooms hwaiting hturn).symm.imp_right fun hw => ⟨hstage, hw⟩
      · simpa only [Process.setFile, Function.update_of_ne ho] using Or.inr ⟨hstage, hwaiting⟩

theorem inv_setFile {docId : String} {f : File} {e : Reopen.Event} (hs : Inv start docBusEnabled s)
    (hlisted : docId ∈ s.docIds) (hsplits : Splits (s.file docId).site e)
    (h : FileContent.step docBusEnabled docId (s.file docId) e = some f) :
    Inv start docBusEnabled (s.setFile docId f) := by
  have hfile : ∀ {P : String → File → Prop}, (∀ other, P other (s.file other)) → P docId f →
      ∀ other, P other ((s.setFile docId f).file other) := by
    intro P hold hnew other
    by_cases ho : other = docId
    · subst ho
      simpa [Process.setFile] using hnew
    · simpa [Process.setFile, ho] using hold other
  refine ⟨hfile (P := fun docId f => Reopen.Inv (start docId).store.tables docBusEnabled f.site)
      hs.site (site_inv_step (hs.site docId) hsplits h),
    hfile (P := fun docId f => Covered (start docId).store.tables f) hs.covered
      (covered_step (hs.site docId) (hs.covered docId) hsplits h),
    hfile (P := fun _ f => Blocked f.site.doc) hs.blocked ?_, fun other ho => ?_,
    fun call hcall =>
      callInv_setFile (hs.site docId) (hs.covered docId) (hs.call call hcall) hsplits h⟩
  · rcases doc_step h with hsame | ⟨turn, -, hturn⟩
    · rw [hsame]
      exact hs.blocked docId
    · exact blocked_step (hs.site docId).rooms (hs.blocked docId) hturn
  · have hne : other ≠ docId := fun heq => ho (heq ▸ hlisted)
    simpa [Process.setFile, hne] using hs.unlisted other ho

theorem mem_applied {docId : String} {r : RoomId} {u : Update}
    (hu : u ∈ (flushAllRooms s).applied docId r) :
    (s.file docId).site.doc.creation r = .ready ∧
      (s.file docId).site.doc.finalWrite r ≠ .settled ∧
      u ∈ ((s.file docId).site.work r).ydoc := by
  simp only [flushAllRooms] at hu
  split at hu
  · next hlive => exact ⟨hlive.1, hlive.2, hu⟩
  · exact absurd hu (Finset.notMem_empty u)

/-- What a room holds is saved, or will be by what it has still to write. -/
theorem saved_or_awaits {docId : String} {r : RoomId} {u : Update}
    (hs : Inv start docBusEnabled s) (htext : TextFollows (s.file docId))
    (hready : (s.file docId).site.doc.creation r = .ready)
    (hfinal : (s.file docId).site.doc.finalWrite r ≠ .settled)
    (hu : u ∈ ((s.file docId).site.work r).ydoc) : Saved (s.file docId) u ∨
      Awaits (contents (s.file docId).site.store.tables) ((s.file docId).site.work r).buffer u := by
  have hcounted := (hs.site docId).counted r
  rcases (hs.site docId).stored r hready u hu with hstored | hunwritten
  · rcases htext r hready hfinal with hwrite | hshown
    · exact Or.inr (awaits_of_toWrite hcounted hwrite hstored fun ydoc hw =>
        (hs.covered docId).writing r ydoc hw hstored)
    · exact Or.inl ⟨hstored, hshown hu⟩
  · exact Or.inr (awaits_of_unwritten hcounted hunwritten)

/-- A room that may still write has its final write pending, or is in the map. -/
theorem callInv_flushAllRooms (hs : Inv start docBusEnabled s)
    (htext : ∀ docId, TextFollows (s.file docId)) : CallInv s (flushAllRooms s) where
  applied := by
    intro docId r u hu
    obtain ⟨hready, -, hydoc⟩ := mem_applied hu
    exact ⟨hready, hydoc⟩
  listed := by
    intro docId hw
    by_contra hnot
    simp [flushAllRooms, hs.unlisted docId hnot, Doc.empty] at hw
  awaited := by
    intro docId r u hu
    obtain ⟨hready, hfinal, hydoc⟩ := mem_applied hu
    exact saved_or_awaits hs (htext docId) hready hfinal hydoc
  flushing := by
    intro docId r ticket hw
    simp [flushAllRooms] at hw
  done := by
    intro docId r hw
    simp [flushAllRooms] at hw
  elsewhere := by
    intro docId r u hu
    obtain ⟨hready, hunsettled, -⟩ := mem_applied hu
    cases hfinal : (s.file docId).site.doc.finalWrite r with
    | none =>
        have hentry := (hs.site docId).rooms.usable_entry r
          ⟨by simp [hready], by simp [hready], hfinal⟩
        exact Or.inr (Or.inl ⟨.awaiting, by simp [flushAllRooms, hentry]⟩)
    | pending => exact Or.inr (Or.inr (((hs.site docId).rooms.pendingWrite_iff r).mpr hfinal))
    | settled => exact absurd hfinal hunsettled
  after := by
    intro docId r stage k hw hk
    simp only [flushAllRooms, Option.map_eq_some_iff, Prod.mk.injEq] at hw hk
    obtain ⟨_, hentry, rfl, rfl⟩ := hw
    exact Or.inr ⟨rfl, hs.blocked docId _ k hentry hk⟩
  resolved := fun h => by cases h

theorem callInv_setWait {call : Call} {docId : String} {r : RoomId} {stage stage' : Stage}
    (hcall : CallInv s call) (hw : call.waits docId = some (r, stage))
    (hflushing : ∀ ticket, stage' = .flushing ticket → ∀ u ∈ call.applied docId r,
      Saved (s.file docId) u ∨ Owed (contents (s.file docId).site.store.tables)
        ((s.file docId).site.work r).buffer ticket u)
    (hdone : stage' = .done → ∀ u ∈ call.applied docId r, Saved (s.file docId) u)
    (hafter : ∀ k, call.leaving docId = some k →
      (s.file docId).site.doc.finalWrite k = .settled) :
    CallInv s (call.setWait docId r stage') := by
  have hother : ∀ other, other ≠ docId →
      (call.setWait docId r stage').waits other = call.waits other :=
    fun other ho => Function.update_of_ne ho _ _
  have hself : (call.setWait docId r stage').waits docId = some (r, stage') :=
    Function.update_self _ _ _
  refine ⟨hcall.applied, fun other ho => ?_, hcall.awaited, fun other j ticket hj => ?_,
    fun other j hj => ?_, fun other j u hu => ?_, fun other j stage k hj hk => ?_, hcall.resolved⟩
  all_goals
    by_cases heq : other = docId
  · subst heq
    exact hcall.listed other (Or.inl (by simp [hw]))
  · exact hcall.listed other (by rwa [hother other heq] at ho)
  · subst heq
    cases hself.symm.trans hj
    exact hflushing ticket rfl
  · exact hcall.flushing other j ticket (by rwa [hother other heq] at hj)
  · subst heq
    cases hself.symm.trans hj
    exact hdone rfl
  · exact hcall.done other j (by rwa [hother other heq] at hj)
  · subst heq
    refine (hcall.elsewhere other j u hu).imp_right (Or.imp_left ?_)
    rintro ⟨stage'', hj⟩
    cases hw.symm.trans hj
    exact ⟨stage', hself⟩
  · refine (hcall.elsewhere other j u hu).imp_right (Or.imp_left ?_)
    rw [hother other heq]
    exact id
  · subst heq
    exact Or.inl (hafter k hk)
  · exact hcall.after other j stage k (by rwa [hother other heq] at hj) hk

/-- A room the call found has resolved: no earlier final write is pending. -/
theorem settled_of_resolved {call : Call} {docId : String} {r : RoomId} {stage : Stage}
    (hcall : CallInv s call) (hw : call.waits docId = some (r, stage))
    (hr : stage ≠ .awaiting ∨ ∀ k, (s.file docId).site.doc.creation r ≠ .waiting k) :
    ∀ k, call.leaving docId = some k → (s.file docId).site.doc.finalWrite k = .settled := by
  intro k hk
  refine (hcall.after docId r stage k hw hk).resolve_right fun hwaiting => ?_
  exact hr.elim (fun hne => hne hwaiting.1) fun hne => hne k hwaiting.2

theorem inv_setCall {call : Call} (hs : Inv start docBusEnabled s) (hcall : CallInv s call) :
    Inv start docBusEnabled { s with call := some call } := by
  refine { hs with call := ?_ }
  rintro _ ⟨⟩
  exact ⟨hcall.applied, hcall.listed, hcall.awaited, hcall.flushing, hcall.done, hcall.elsewhere,
    hcall.after, hcall.resolved⟩

theorem inv_resume {docId : String} (hs : Inv start docBusEnabled s)
    (h : step docBusEnabled s (.resume docId) = some s') : Inv start docBusEnabled s' := by
  cases hcall : s.call with
  | none => simp [step, hcall] at h
  | some call =>
      have hinv := hs.call call hcall
      rcases hw : call.waits docId with - | ⟨r, - | ticket | -⟩ <;>
        simp only [step, hcall, hw, reduceCtorEq] at h
      have hlisted : docId ∈ s.docIds := hinv.listed docId (Or.inl (by simp [hw]))
      cases hcreation : (s.file docId).site.doc.creation r <;>
        simp only [hcreation, reduceCtorEq, Option.some.injEq, Option.map_eq_some_iff] at h
      · obtain ⟨f, hf, rfl⟩ := h
        have hsplits : Splits (s.file docId).site (.flush r) := trivial
        have hset := inv_setFile hs hlisted hsplits hf
        have hinv' := hset.call call hcall
        obtain ⟨site, hsite, rfl⟩ := Option.map_eq_some_iff.mp hf
        obtain ⟨-, rfl⟩ := flush_eq_some hsite
        apply inv_setCall hset
        apply callInv_setWait hinv' hw ?_ (fun hdone => by cases hdone)
          (settled_of_resolved hinv' hw
            (Or.inr (by simp [Process.setFile, Site.setWork, hcreation])))
        rintro ticket ⟨⟩ u hu
        simp only [Process.setFile, Function.update_self, Site.setWork]
        exact (hinv.awaited docId r u hu).imp_right (owed_flush ((hs.site docId).counted r))
      · subst h
        apply inv_setCall hs
        apply callInv_setWait hinv hw (fun ticket h => by cases h) (fun _ u hu => ?_)
          (settled_of_resolved hinv hw (Or.inr fun k => by simp [hcreation]))
        have hready := (hinv.applied docId r u hu).1
        exact absurd (hready.symm.trans hcreation) (by simp)

theorem inv_flushed {docId : String} (hs : Inv start docBusEnabled s)
    (h : step docBusEnabled s (.flushed docId) = some s') : Inv start docBusEnabled s' := by
  cases hcall : s.call with
  | none => simp [step, hcall] at h
  | some call =>
      have hinv := hs.call call hcall
      rcases hw : call.waits docId with - | ⟨r, - | ticket | -⟩ <;>
        simp only [step, hcall, hw, reduceCtorEq] at h
      simp only [Option.ite_none_right_eq_some, Option.some.injEq] at h
      obtain ⟨hsettled, rfl⟩ := h
      apply inv_setCall hs
      apply callInv_setWait hinv hw (fun _ h => by cases h) (fun _ u hu => ?_)
        (settled_of_resolved hinv hw (Or.inl (by simp)))
      refine (hinv.flushing docId r ticket hw u hu).resolve_right fun howed => ?_
      exact absurd howed.settled_lt (Nat.not_lt_of_le hsettled)

theorem inv_resolve (hs : Inv start docBusEnabled s) (hok : Suffices s .resolve)
    (h : step docBusEnabled s .resolve = some s') : Inv start docBusEnabled s' := by
  cases hcall : s.call with
  | none => simp [step, hcall] at h
  | some call =>
      have hinv := hs.call call hcall
      simp only [step, hcall, Option.ite_none_right_eq_some, Option.some.injEq] at h
      obtain ⟨hdone, rfl⟩ := h
      have hstage : ∀ docId r stage, call.waits docId = some (r, stage) → stage = .done :=
        fun docId r stage hw =>
          hdone docId (hinv.listed docId (Or.inl (by simp [hw]))) (r, stage) (by simp [hw])
      refine inv_setCall hs { hinv with resolved := fun _ docId r u hu => ?_ }
      rcases hinv.elsewhere docId r u hu with hsaved | ⟨stage, hw⟩ | hleaving
      · exact hsaved
      · obtain rfl := hstage docId r stage hw
        exact hinv.done docId r hw u hu
      · -- evicted: its write has settled, or a room in the map came after it
        have hsettled : (s.file docId).site.doc.finalWrite r = .settled := by
          rcases hw : call.waits docId with - | ⟨k, stage⟩
          · exact hok call hcall docId r hleaving hw
          · obtain rfl := hstage docId k stage hw
            exact settled_of_resolved hinv hw (Or.inl (by simp)) r hleaving
        have hquiet := quiet_of_settled (hs.site docId) hsettled
        exact (hinv.awaited docId r u hu).resolve_right (not_awaits_of_quiet hquiet)

theorem inv_step {e : Event} (hs : Inv start docBusEnabled s) (hok : Suffices s e)
    (h : step docBusEnabled s e = some s') : Inv start docBusEnabled s' := by
  cases e with
  | file docId e =>
      simp only [step, Option.ite_none_right_eq_some, Option.map_eq_some_iff] at h
      obtain ⟨hlisted, f, hf, rfl⟩ := h
      exact inv_setFile hs hlisted hok hf
  | flushAllRooms =>
      cases hcall : s.call <;> simp only [step, hcall, reduceCtorEq, Option.some.injEq] at h
      subst h
      exact inv_setCall hs (callInv_flushAllRooms hs hok)
  | resume docId => exact inv_resume hs h
  | flushed docId => exact inv_flushed hs h
  | resolve => exact inv_resolve hs hok h

/-- From any stored documents and texts, in every run in which the call finds no
text behind its log and resolves after the final writes that no room in the map
was waiting for: every update applied before the call is in the log and in the
text of its file. -/
theorem flushedAll {docIds : List String} {content : String → Finset Update}
    {events : List Event}
    (h : run (step docBusEnabled) (Process.init docIds start content) events = some s)
    (hok : Meets (step docBusEnabled) Suffices (Process.init docIds start content) events) :
    FlushedAll s := by
  have hinv : Inv start docBusEnabled s :=
    run_invariant_of_meets (fun _ _ _ => inv_step) (inv_init docIds start content) hok h
  intro call hcall hresolved
  exact (hinv.call call hcall).resolved hresolved

/-- A document of one row whose text was not written. -/
def unwritten : Start Update where
  store := ⟨⟨none, [⟨1, {.edit 3}, 0⟩]⟩, 2, 0⟩
  sequenced := by constructor <;> decide

/-- It is opened and edited, and its last connection leaves. -/
def evicted : List Event :=
  [.file "p:f" (.control (.join 0)), .file "p:f" (.lookUp 0 (some "")),
    .file "p:f" (.readSnapshot 0), .file "p:f" (.readTail 0),
    .file "p:f" (.control (.resumeJoin 0)), .file "p:f" (.control (.attach 0)),
    .file "p:f" (.edit 0 {7} 3), .file "p:f" (.control (.leave 0)),
    .file "p:f" (.control (.resumeLeave 0))]

/-- The final write settles before the call resolves. -/
def written : List Event :=
  [.flushAllRooms, .file "p:f" (.write 0 .start), .file "p:f" (.write 0 (.append 2)),
    .file "p:f" (.write 0 (.resume {.edit 3, .edit 7})), .file "p:f" (.write 0 (.materialize true)),
    .file "p:f" (.write 0 .count), .file "p:f" (.control (.writeSettles 0))]

/-- The process before anything happens. -/
def stored : Process := Process.init ["p:f"] (fun _ => unwritten) fun _ => ∅

theorem textFollows_evicted {s : Process} (h : run (step false) stored evicted = some s) :
    ∀ docId, TextFollows (s.file docId) := by
  have hinv : Inv (fun _ => unwritten) false s := by
    refine run_invariant_of_meets (fun _ _ _ => inv_step) (inv_init _ _ _) ?_ h
    exact meets_of_forall (by simp [evicted, Suffices, Splits])
  have hfields : (run (step false) stored evicted).map (fun s => (s.docIds,
      (s.file "p:f").site.doc.creation 0, (s.file "p:f").site.doc.finalWrite 0,
      ((s.file "p:f").site.work 0).buffer.chain)) =
        some (["p:f"], .ready, .pending, [[⟨{.edit 7}, 3⟩]]) := rfl
  simp only [h, Option.map_some, Option.some.injEq, Prod.mk.injEq] at hfields
  obtain ⟨hdocIds, hready, hpending, hchain⟩ := hfields
  intro docId r hr hfinal
  by_cases hlisted : docId ∈ s.docIds
  · obtain rfl : docId = "p:f" := by simpa [hdocIds] using hlisted
    obtain rfl := eq_of_unsettled (hinv.site "p:f") hready (by simp [hpending]) hr hfinal
    exact Or.inl (Or.inr (Or.inl ⟨_, by rw [hchain]; exact List.mem_cons_self, by simp⟩))
  · rw [hinv.unlisted docId hlisted] at hr
    cases hr

theorem flushedAll_written :
    ∃ s, run (step false) stored (evicted ++ (written ++ [.resolve])) = some s ∧ FlushedAll s ∧
      s.call.map (fun call => call.applied "p:f" 0) = some {.edit 3, .edit 7} := by
  have hrun : (run (step false) stored (evicted ++ (written ++ [.resolve]))).map
      (fun s => s.call.map fun call => call.applied "p:f" 0) = some (some {.edit 3, .edit 7}) := rfl
  obtain ⟨s, hs, happlied⟩ := Option.map_eq_some_iff.mp hrun
  obtain ⟨t, ht, hrest⟩ := run_append_eq_some.mp hs
  obtain ⟨u, hu, -⟩ := run_append_eq_some.mp hrest
  have hevicted : Meets (step false) Suffices stored evicted :=
    meets_of_forall (by simp [evicted, Suffices, Splits])
  have hwritten : Meets (step false) Suffices t written := by
    refine ⟨textFollows_evicted ht, fun _ _ => meets_of_forall ?_⟩
    simp [Suffices, Splits, WriteEvent.Splits]
  have hresolve : Suffices u .resolve := by
    have hrun : run (step false) stored (evicted ++ written) = some u :=
      run_append_eq_some.mpr ⟨t, ht, hu⟩
    have hinv : Inv (fun _ => unwritten) false u :=
      run_invariant_of_meets (fun _ _ _ => inv_step) (inv_init _ _ _)
        ((meets_append ht).mpr ⟨hevicted, hwritten⟩) hrun
    have hfields : (run (step false) stored (evicted ++ written)).map (fun s => (s.docIds,
        s.call.map (fun call => call.leaving "p:f"), (s.file "p:f").site.doc.finalWrite 0)) =
          some (["p:f"], some (some 0), .settled) := rfl
    simp only [hrun, Option.map_some, Option.some.injEq, Prod.mk.injEq] at hfields
    obtain ⟨hdocIds, hleaving, hsettled⟩ := hfields
    intro call hcall docId r hr _
    have hlisted := (hinv.call call hcall).listed docId (Or.inr (by simp [hr]))
    obtain rfl : docId = "p:f" := by simpa [hdocIds] using hlisted
    rw [hcall, Option.map_some, hr, Option.some.injEq, Option.some.injEq] at hleaving
    exact hleaving ▸ hsettled
  have hlast : Meets (step false) Suffices u [.resolve] := ⟨hresolve, fun _ _ => trivial⟩
  have hmeets := (meets_append ht).mpr ⟨hevicted, (meets_append hu).mpr ⟨hwritten, hlast⟩⟩
  exact ⟨s, hs, flushedAll hs hmeets, happlied⟩

/-- What a call that has resolved applied before, and where it is. -/
def outcome (s : Process) : Option (Bool × Finset Update × Finset Update × Finset Update) :=
  s.call.map fun call => (call.resolved, call.applied "p:f" 0,
    contents (s.file "p:f").site.store.tables, (s.file "p:f").content)

theorem not_flushedAll {s : Process} {applied stored content : Finset Update} {u : Update}
    (h : outcome s = some (true, applied, stored, content)) (hu : u ∈ applied)
    (hnot : u ∉ stored ∨ u ∉ content) : ¬ FlushedAll s := by
  intro hflushed
  obtain ⟨call, hcall, hfields⟩ := Option.map_eq_some_iff.mp h
  simp only [Prod.mk.injEq] at hfields
  obtain ⟨hresolved, rfl, rfl, rfl⟩ := hfields
  obtain ⟨hstored, hshown⟩ := hflushed call hcall hresolved "p:f" 0 u hu
  exact hnot.elim (absurd hstored) (absurd hshown)

/-- An empty document is opened and edited, and its last connection leaves. -/
def evictedUnwritten : List Event :=
  [.file "p:f" (.control (.join 0)), .file "p:f" (.lookUp 0 (some "")),
    .file "p:f" (.readSnapshot 0), .file "p:f" (.readTail 0), .file "p:f" (.writeSeed 0),
    .file "p:f" (.control (.resumeJoin 0)), .file "p:f" (.control (.attach 0)),
    .file "p:f" (.edit 0 {7} 3), .file "p:f" (.control (.leave 0)),
    .file "p:f" (.control (.resumeLeave 0)), .flushAllRooms, .resolve]

/-- Nothing waits for the final write of the room. -/
theorem not_flushedAll_evicted :
    ¬ ∀ s, run (step false) (Process.init ["p:f"] (fun _ => .empty 0) fun _ => ∅)
      evictedUnwritten = some s → FlushedAll s := by
  intro hclaim
  have hrun : (run (step false) (Process.init ["p:f"] (fun _ => .empty 0) fun _ => ∅)
      evictedUnwritten).map outcome = some (some (true, {.edit 7}, ∅, ∅)) := rfl
  obtain ⟨s, hs, houtcome⟩ := Option.map_eq_some_iff.mp hrun
  exact not_flushedAll houtcome (Finset.mem_singleton_self _) (Or.inl (Finset.notMem_empty _))
    (hclaim s hs)

/-- A flush with nothing to append writes no text, so one that is behind stays so. -/
example : (run (step false) stored
    [.file "p:f" (.control (.join 0)), .file "p:f" (.lookUp 0 (some "")),
      .file "p:f" (.readSnapshot 0), .file "p:f" (.readTail 0),
      .file "p:f" (.control (.resumeJoin 0)), .file "p:f" (.control (.attach 0)),
      .flushAllRooms, .resume "p:f", .file "p:f" (.write 0 .start), .flushed "p:f",
      .resolve]).map outcome = some (some (true, {.edit 3}, {.edit 3}, ∅)) := rfl

end CollabIDE.Collab.FlushAll
