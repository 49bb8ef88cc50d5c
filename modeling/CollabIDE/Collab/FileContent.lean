import CollabIDE.Collab.ReopenInvariant
import CollabIDE.Persistence.Tickets
/-!
# A document and its file's text

The rooms of one document with `File.content`, which is told by the document
whose text it is.  Appends and materializations succeed; a compaction may fail.
-/

namespace CollabIDE.Collab.FileContent

open CollabIDE.Lib.Machine CollabIDE.Collab.Rooms CollabIDE.Collab.Reopen
open CollabIDE.Persistence.DocStore CollabIDE.Persistence.Buffer CollabIDE.Persistence.Turns
open CollabIDE.Persistence.Tickets

structure File where
  site : Site
  /-- The updates whose text was written last. -/
  content : Finset Update

def File.init (start : Start Update) (content : Finset Update) : File :=
  ⟨Site.init start, content⟩

/-- The turns of `writeBatch` for a room: the text that is materialized is that
of the room's document. -/
def mayWrite (w : Work) : WriteEvent Update → Bool
  | .resume ydoc => ydoc = w.ydoc
  | .appendFails _ | .materialize false => false
  | _ => true

def step (docBusEnabled : Bool) (docId : String) (f : File) : Reopen.Event → Option File
  | .write r e =>
    if mayWrite (f.site.work r) e then
      (writeStep docId f.site.store (f.site.work r).buffer e).map fun p =>
        ⟨{ f.site.setWork r { f.site.work r with buffer := p.2 } with store := p.1 },
          materialized (f.site.work r).buffer f.content e⟩
    else none
  | .writeSeed r =>
    match (f.site.work r).loading with
    -- the seed's text is what was read from the file
    | .seeding content =>
      (Reopen.step docBusEnabled docId f.site (.writeSeed r)).map fun site =>
        ⟨site, seedOf r content⟩
    | _ => none
  | e => (Reopen.step docBusEnabled docId f.site e).map fun site => { f with site }

/-! ## The ways a step can go -/

def isEdit : Reopen.Event → Bool
  | .edit .. => true
  | _ => false

/-- The same document, its buffer at most flushed or detached. -/
structure SameWork (w w' : Work) : Prop where
  ydoc : w'.ydoc = w.ydoc
  pushed : Pushed w.buffer w'.buffer
  unwritten : ∀ u, Unwritten w'.buffer u → Unwritten w.buffer u

/-- No document, no row and no text changes. -/
structure Turned (f f' : File) : Prop where
  ready : ∀ r, f'.site.doc.creation r = .ready ↔ f.site.doc.creation r = .ready
  settled : ∀ r, f.site.doc.finalWrite r = .settled → f'.site.doc.finalWrite r = .settled
  work : ∀ r, SameWork (f.site.work r) (f'.site.work r)
  stored : contents f'.site.store.tables = contents f.site.store.tables
  content : f'.content = f.content

inductive Moved (docId : String) (f : File) (e : Reopen.Event) : File → Prop
  | turned {f' : File} (h : Turned f f') : Moved docId f e f'
  | edited {r : RoomId} {update : Finset Update} {byteLength : Nat}
      (hr : f.site.doc.creation r = .ready) (he : isEdit e = true) :
    Moved docId f e { f with site := f.site.setWork r { f.site.work r with
      ydoc := (f.site.work r).ydoc ∪ update
      buffer := onUpdate (f.site.work r).buffer ⟨update, byteLength⟩ } }
  | opened {r : RoomId} {f' : File} {ydoc : Finset Update} (hr : f.site.doc.creation r = .building)
      (hdoc : f'.site.doc = f.site.doc.setCreation r .ready)
      (hwork : f'.site.work = Function.update f.site.work r ((f.site.work r).opened ydoc))
      (hstored : contents f'.site.store.tables = ydoc)
      (hcontent : contents f.site.store.tables = ydoc ∧ f'.content = f.content ∨
        f.site.store.tables = Tables.empty ∧ ∃ content, ydoc = seedOf r content) :
    Moved docId f e f'
  | wrote {r : RoomId} {turn : WriteEvent Update} {store : Store Update}
      {buffer : DocPersistence Update} (he : e = .write r turn)
      (hok : mayWrite (f.site.work r) turn = true)
      (h : writeStep docId f.site.store (f.site.work r).buffer turn = some (store, buffer)) :
    Moved docId f e ⟨{ f.site.setWork r { f.site.work r with buffer } with store },
      materialized (f.site.work r).buffer f.content turn⟩

variable {start : Tables Update} {docBusEnabled : Bool} {docId : String} {f f' : File}
  {r k : RoomId} {u : Update}

theorem writes_of_mayWrite {w : Work} {e : WriteEvent Update} (h : mayWrite w e = true) :
    Writes e := by
  cases e with
  | materialize succeeds => cases succeeds <;> trivial
  | appendFails => cases h
  | _ => trivial

theorem SameWork.refl (w : Work) : SameWork w w := ⟨rfl, .refl _, fun _ => id⟩

theorem sameWork_flush (w : Work) : SameWork w { w with buffer := flush w.buffer } :=
  ⟨rfl, pushed_flush _, fun _ => unwritten_flush.mp⟩

theorem sameWork_update {work : RoomId → Work} {w : Work} (h : SameWork (work k) w) (r : RoomId) :
    SameWork (work r) (Function.update work k w r) := by
  by_cases hr : r = k
  · subst hr
    rwa [Function.update_self]
  · rw [Function.update_of_ne hr]
    exact .refl _

theorem unwritten_detach {b : DocPersistence Update} (u : Update)
    (h : Unwritten (detach b) u) : Unwritten b u := by
  obtain ⟨timer, heq⟩ := detach_eq b
  rw [heq] at h
  exact h

theorem turned_control {e : Rooms.Event} {site : Site} (hs : Inv start docBusEnabled f.site)
    (h : Reopen.control docBusEnabled f.site e = some site) : Turned f { f with site } := by
  obtain ⟨doc, hdoc, rfl, -, hcreate⟩ := control_eq_some h
  have hwork : ∀ r, SameWork (f.site.work r) (controlWork f.site e r) := by
    intro r
    cases e with
    | resumeLeave c =>
        cases hev : evicted f.site.doc c with
        | none => simp only [controlWork, hev, SameWork.refl]
        | some k =>
            simp only [controlWork, hev]
            have hsame : SameWork (f.site.work k) (f.site.work k).evict :=
              ⟨rfl, pushed_flush _, fun _ => unwritten_flush.mp⟩
            exact sameWork_update hsame r
    | finishLeave c =>
        cases hc : f.site.doc.conn c with
        | evicting k =>
            simp only [controlWork, hc]
            have hsame : SameWork (f.site.work k)
                { f.site.work k with buffer := detach (f.site.work k).buffer } :=
              ⟨rfl, pushed_detach _, unwritten_detach⟩
            exact sameWork_update hsame r
        | _ => simp only [controlWork, hc, SameWork.refl]
    | _ => exact .refl _
  refine ⟨fun r => (step_creation hs.rooms hcreate hdoc r).2, fun r hr => ?_, hwork, rfl, rfl⟩
  simp only [step_finalWrite hdoc r]
  cases e with
  | resumeLeave c =>
      have hnot : evicted f.site.doc c ≠ some r := fun hev => by
        simp [(finalWrite_of_evicted hs.rooms hev).2] at hr
      simp only [finalWriteStep, if_neg hnot, hr]
  | writeSettles j =>
      by_cases hj : j = r
      · simp [finalWriteStep, hj]
      · simp only [finalWriteStep, if_neg hj, hr]
  | _ => exact hr

theorem turned_setWork {w : Work} (hw : SameWork (f.site.work r) w) :
    Turned f { f with site := f.site.setWork r w } :=
  ⟨fun _ => Iff.rfl, fun _ h => h, sameWork_update hw, rfl, rfl⟩

theorem turned_absent (hr : f.site.doc.creation r = .building) :
    Turned f { f with site := { f.site with doc := f.site.doc.setCreation r .absent } } := by
  refine ⟨fun j => ?_, fun _ h => h, fun _ => .refl _, rfl, rfl⟩
  by_cases hj : j = r
  · simp [Doc.setCreation, hj, hr]
  · simp [Doc.setCreation, hj]

theorem seed_eq_some (h : step docBusEnabled docId f (.writeSeed r) = some f') :
    ∃ content, (f.site.work r).loading = .seeding content ∧
      Reopen.step docBusEnabled docId f.site (.writeSeed r) = some f'.site ∧
      f'.content = seedOf r content := by
  cases hloading : (f.site.work r).loading <;>
    simp only [step, hloading, reduceCtorEq, Option.map_eq_some_iff] at h
  obtain ⟨site, hsite, rfl⟩ := h
  exact ⟨_, rfl, hsite, rfl⟩

theorem moved (hs : Inv start docBusEnabled f.site) {e : Reopen.Event}
    (h : step docBusEnabled docId f e = some f') : Moved docId f e f' := by
  cases e with
  | write r e =>
      simp only [step, Option.ite_none_right_eq_some, Option.map_eq_some_iff] at h
      obtain ⟨hok, ⟨store, buffer⟩, hwrite, rfl⟩ := h
      exact .wrote rfl hok hwrite
  | writeSeed r =>
      obtain ⟨content, hloading, hsite, hcontent⟩ := seed_eq_some h
      obtain ⟨hr, htables⟩ := hs.seeding r content hloading
      obtain ⟨content', hloading', -, hnew⟩ := writeSeed_eq_some hsite
      obtain rfl := Loading.seeding.inj (hloading.symm.trans hloading')
      refine .opened (r := r) hr (by rw [hnew]) (by rw [hnew]; rfl) ?_
        (Or.inr ⟨htables, content, rfl⟩)
      simp only [hnew, htables]
      rw [contents_writeSnapshot_zero _ rfl, contents_empty, Finset.empty_union]
  | control e =>
      obtain ⟨site, hsite, rfl⟩ := Option.map_eq_some_iff.mp h
      exact .turned (turned_control hs hsite)
  | lookUp r file =>
      obtain ⟨site, hsite, rfl⟩ := Option.map_eq_some_iff.mp h
      obtain ⟨hr, -, ⟨-, rfl⟩ | ⟨content, -, rfl⟩⟩ := lookUp_eq_some hsite
      · exact .turned (turned_absent hr)
      · exact .turned (turned_setWork ⟨rfl, .refl _, fun _ => id⟩)
  | readSnapshot r =>
      obtain ⟨site, hsite, rfl⟩ := Option.map_eq_some_iff.mp h
      obtain ⟨content, -, rfl⟩ := readSnapshot_eq_some hsite
      exact .turned (turned_setWork ⟨rfl, .refl _, fun _ => id⟩)
  | readTail r =>
      obtain ⟨site, hsite, rfl⟩ := Option.map_eq_some_iff.mp h
      obtain ⟨content, snapshot, hloading, hcases⟩ := readTail_eq_some hsite
      obtain ⟨hr, rfl⟩ := hs.tail r content snapshot hloading
      rcases hcases with ⟨-, -, rfl⟩ | ⟨-, rfl⟩
      · have hstored := (rebuild_load f.site.store.tables).symm
        exact .opened hr rfl rfl hstored (Or.inl ⟨hstored, rfl⟩)
      · exact .turned (turned_setWork ⟨rfl, .refl _, fun _ => id⟩)
  | edit c edits byteLength =>
      obtain ⟨site, hsite, rfl⟩ := Option.map_eq_some_iff.mp h
      obtain ⟨r, hc, rfl⟩ := edit_eq_some hsite
      unfold applyEdits
      dsimp only
      split
      · exact .turned (turned_setWork ⟨rfl, .refl _, fun _ => id⟩)
      · exact .edited (entry_of_holds hs.rooms hc).2 rfl
  | timerFires r =>
      obtain ⟨site, hsite, rfl⟩ := Option.map_eq_some_iff.mp h
      obtain ⟨buffer, hbuffer, rfl⟩ := timerFires_eq_some hsite
      simp only [timerFires, Option.ite_none_right_eq_some, Option.some.injEq] at hbuffer
      exact .turned (turned_setWork (hbuffer.2 ▸ sameWork_flush _))
  | flush r =>
      obtain ⟨site, hsite, rfl⟩ := Option.map_eq_some_iff.mp h
      obtain ⟨-, rfl⟩ := flush_eq_some hsite
      exact .turned (turned_setWork (sameWork_flush _))
  | tick milliseconds =>
      cases h
      exact .turned ⟨fun _ => Iff.rfl, fun _ h => h, fun _ => .refl _, rfl, rfl⟩

theorem site_inv_step (hs : Inv start docBusEnabled f.site) {e : Reopen.Event}
    (hsplits : Splits f.site e) (h : step docBusEnabled docId f e = some f') :
    Inv start docBusEnabled f'.site := by
  cases e with
  | write r e =>
      simp only [step, Option.ite_none_right_eq_some, Option.map_eq_some_iff] at h
      obtain ⟨hok, ⟨store, buffer⟩, hwrite, rfl⟩ := h
      refine inv_write hs (fun mergedBytes heq => ?_) hsplits hwrite
      exact writes_of_mayWrite (heq ▸ hok)
  | writeSeed r =>
      obtain ⟨content, -, hsite, -⟩ := seed_eq_some h
      exact inv_step hs hsplits hsite
  | tick milliseconds =>
      cases h
      exact inv_tick hs milliseconds
  | _ =>
      obtain ⟨site, hsite, rfl⟩ := Option.map_eq_some_iff.mp h
      exact inv_step hs hsplits hsite

theorem site_ordered_step (hs : Inv start docBusEnabled f.site) {e : Reopen.Event}
    (hordered : f.site.store.Ordered) (hforward : setsBack e = false)
    (h : step docBusEnabled docId f e = some f') : f'.site.store.Ordered := by
  cases e with
  | write r e =>
      simp only [step, Option.ite_none_right_eq_some, Option.map_eq_some_iff] at h
      obtain ⟨-, ⟨store, buffer⟩, hwrite, rfl⟩ := h
      exact ordered_turn hordered (hs.current r) hwrite
  | writeSeed r =>
      obtain ⟨content, -, hsite, -⟩ := seed_eq_some h
      exact ordered_step hs hordered hforward hsite
  | tick milliseconds =>
      cases h
      exact hordered.tick (by simpa [setsBack] using hforward)
  | _ =>
      obtain ⟨site, hsite, rfl⟩ := Option.map_eq_some_iff.mp h
      exact ordered_step hs hordered hforward hsite

/-! ## What the text shows -/

/-- In the log, and in the text of the file. -/
def Saved (f : File) (u : Update) : Prop :=
  u ∈ contents f.site.store.tables ∧ u ∈ f.content

/-- What is stored is in the documents, and so in the text that is written. -/
structure Covered (start : Tables Update) (f : File) : Prop where
  source : ∀ u ∈ contents f.site.store.tables, u ∈ contents start ∨
    ∃ r, f.site.doc.creation r = .ready ∧ u ∈ (f.site.work r).ydoc
  latest : ∀ r, f.site.doc.creation r = .ready → f.site.doc.finalWrite r ≠ .settled →
    contents f.site.store.tables ⊆ (f.site.work r).ydoc
  unwritten : ∀ r u, Unwritten (f.site.work r).buffer u → u ∈ (f.site.work r).ydoc
  writing : ∀ r ydoc, (f.site.work r).buffer.writing = .materializing ydoc →
    contents f.site.store.tables ⊆ ydoc

theorem covered_init (start : Start Update) (content : Finset Update) :
    Covered start.store.tables (File.init start content) where
  source := fun _ hu => Or.inl hu
  latest := fun _ h => by cases h
  unwritten := fun _ u h => absurd h (quiet_fresh.not_unwritten u)
  writing := fun _ _ h => by cases h

theorem covered_turned (hc : Covered start f) (h : Turned f f') : Covered start f' where
  source := by
    intro u hu
    refine (hc.source u (h.stored ▸ hu)).imp_right ?_
    rintro ⟨r, hr, hu⟩
    exact ⟨r, (h.ready r).mpr hr, (h.work r).ydoc ▸ hu⟩
  latest := by
    intro r hr hfinal
    rw [h.stored, (h.work r).ydoc]
    exact hc.latest r ((h.ready r).mp hr) (mt (h.settled r) hfinal)
  unwritten := by
    intro r u hu
    rw [(h.work r).ydoc]
    exact hc.unwritten r u ((h.work r).unwritten u hu)
  writing := by
    intro r ydoc hw
    rw [h.stored]
    exact hc.writing r ydoc ((h.work r).pushed.writing ▸ hw)

theorem ydoc_subset_setWork {w : Work} (hw : (f.site.work k).ydoc ⊆ w.ydoc) (r : RoomId) :
    (f.site.work r).ydoc ⊆ (Function.update f.site.work k w r).ydoc := by
  by_cases hr : r = k
  · rw [hr, Function.update_self]
    exact hw
  · rw [Function.update_of_ne hr]

theorem covered_edited {update : Finset Update} {byteLength : Nat} (hc : Covered start f) :
    Covered start { f with site := f.site.setWork r { f.site.work r with
      ydoc := (f.site.work r).ydoc ∪ update
      buffer := onUpdate (f.site.work r).buffer ⟨update, byteLength⟩ } } := by
  have hpushed := pushed_onUpdate (f.site.work r).buffer ⟨update, byteLength⟩
  have hgrown : ∀ j, (f.site.work j).ydoc ⊆ (Function.update f.site.work r { f.site.work r with
      ydoc := (f.site.work r).ydoc ∪ update
      buffer := onUpdate (f.site.work r).buffer ⟨update, byteLength⟩ } j).ydoc :=
    ydoc_subset_setWork Finset.subset_union_left
  refine ⟨fun u hu => ?_, fun j hj hfinal => (hc.latest j hj hfinal).trans (hgrown j),
    fun j u hu => ?_, fun j ydoc hw => ?_⟩
  all_goals simp only [Site.setWork] at *
  · refine (hc.source u hu).imp_right ?_
    rintro ⟨j, hj, hu⟩
    exact ⟨j, hj, hgrown j hu⟩
  · by_cases hjr : j = r
    · subst hjr
      rw [Function.update_self] at hu ⊢
      rcases unwritten_onUpdate.mp hu with hold | hnew
      · exact Finset.mem_union_left _ (hc.unwritten j u hold)
      · exact Finset.mem_union_right _ hnew
    · rw [Function.update_of_ne hjr] at hu ⊢
      exact hc.unwritten j u hu
  · by_cases hjr : j = r
    · subst hjr
      rw [Function.update_self] at hw
      exact hc.writing j ydoc (hpushed.writing ▸ hw)
    · rw [Function.update_of_ne hjr] at hw
      exact hc.writing j ydoc hw

theorem covered_opened {ydoc : Finset Update} (hs : Inv start docBusEnabled f.site)
    (hr : f.site.doc.creation r = .building)
    (hdoc : f'.site.doc = f.site.doc.setCreation r .ready)
    (hwork : f'.site.work = Function.update f.site.work r ((f.site.work r).opened ydoc))
    (hstored : contents f'.site.store.tables = ydoc) : Covered start f' := by
  have hquiet := quiet_of_building hs hr
  have hbuffer : ∀ j, (f'.site.work j).buffer = (f.site.work j).buffer := by
    intro j
    rw [hwork]
    by_cases hj : j = r
    · rw [hj, Function.update_self]
      rfl
    · rw [Function.update_of_ne hj]
  have hnew : (f'.site.work r).ydoc = ydoc := by
    rw [hwork, Function.update_self]
    rfl
  have hready : f'.site.doc.creation r = .ready := by
    rw [hdoc]
    exact Function.update_self _ _ _
  refine ⟨fun u hu => Or.inr ⟨r, hready, ?_⟩, fun j hj hfinal => ?_, fun j u hu => ?_,
    fun j _ hw => ?_⟩
  · rwa [hnew, ← hstored]
  · by_cases hjr : j = r
    · rw [hjr, hnew, hstored]
    · -- every earlier room was written to the end
      rw [hdoc] at hj hfinal
      have hold : f.site.doc.creation j = .ready := (Function.update_of_ne hjr _ _).symm.trans hj
      exact absurd (settled_of_building hs hr hold) hfinal
  · rw [hbuffer] at hu
    exact absurd hu ((hquiet j).not_unwritten u)
  · rw [hbuffer, (hquiet j).writing_eq] at hw
    cases hw

theorem materialized_cases {b : DocPersistence Update} (content : Finset Update)
    (e : WriteEvent Update) : materialized b content e = content ∨
      ∃ ydoc, b.writing = .materializing ydoc ∧ materialized b content e = ydoc := by
  unfold materialized
  split
  · split
    · next ydoc hw => exact Or.inr ⟨ydoc, hw, rfl⟩
    · exact Or.inl rfl
  · exact Or.inl rfl

/-- What is stored and shown stays shown, as the text written next is that of a
document that has it. -/
theorem mem_materialized (hc : Covered start f) (r : RoomId) (e : WriteEvent Update)
    (hu : Saved f u) : u ∈ materialized (f.site.work r).buffer f.content e := by
  rcases materialized_cases f.content e with heq | ⟨ydoc, hw, heq⟩ <;> rw [heq]
  · exact hu.2
  · exact hc.writing r ydoc hw hu.1

theorem busy_of_materializing {b : DocPersistence Update} {ydoc : Finset Update}
    (hw : b.writing = .materializing ydoc) : ¬ Quiet b := fun hb => by
  simp [hb.writing_eq] at hw

theorem materializing_turn {w : Work} {e : WriteEvent Update} {s s' : Store Update}
    {buffer : DocPersistence Update} {ydoc : Finset Update} (hok : mayWrite w e = true)
    (h : writeStep docId s w.buffer e = some (s', buffer))
    (hw : buffer.writing = .materializing ydoc) : ydoc = w.ydoc := by
  cases wrote h with
  | @resume ydoc' hwriting =>
      have hydoc : ydoc' = w.ydoc := by simpa [mayWrite] using hok
      cases hw
      exact hydoc
  | _ => cases hw

theorem ready_of_write (hs : Inv start docBusEnabled f.site) {e : WriteEvent Update}
    {p : Store Update × DocPersistence Update}
    (h : writeStep docId f.site.store (f.site.work r).buffer e = some p) :
    f.site.doc.creation r = .ready := by
  by_contra hnot
  rw [hs.unopened r hnot] at h
  cases e <;> cases h

theorem covered_wrote {e : WriteEvent Update} {store : Store Update}
    {buffer : DocPersistence Update} (hs : Inv start docBusEnabled f.site)
    (hc : Covered start f) (hok : mayWrite (f.site.work r) e = true)
    (hsplits : e.Splits f.site.store.tables)
    (h : writeStep docId f.site.store (f.site.work r).buffer e = some (store, buffer)) :
    Covered start ⟨{ f.site.setWork r { f.site.work r with buffer } with store },
      materialized (f.site.work r).buffer f.content e⟩ := by
  have hkept := kept_turn hs.sequenced (hs.current r) hsplits h
  have hr := ready_of_write hs h
  have hydoc := fun j => (setBuffer_same f.site.work r buffer j).1
  -- the room that may still write has what is stored, and what it appends
  have hlatest : ∀ j, f.site.doc.creation j = .ready → f.site.doc.finalWrite j ≠ .settled →
      contents store.tables ⊆ (f.site.work j).ydoc := by
    intro j hj hfinal u hu
    rcases hkept.stored_only u hu with hold | hnew
    · exact hc.latest j hj hfinal hold
    · have hrfinal := (unsettled_of_busy hs fun hb => hb.not_unwritten u hnew).2
      rw [eq_of_unsettled hs hr hrfinal hj hfinal]
      exact hc.unwritten r u hnew
  refine ⟨fun u hu => ?_, fun j hj hfinal => ?_, fun j u hu => ?_, fun j ydoc hw => ?_⟩
  all_goals simp only [Site.setWork, hydoc] at *
  · rcases hkept.stored_only u hu with hold | hnew
    · exact hc.source u hold
    · exact Or.inr ⟨r, hr, hc.unwritten r u hnew⟩
  · exact hlatest j hj hfinal
  · by_cases hjr : j = r
    · subst hjr
      rw [Function.update_self] at hu
      exact hc.unwritten j u (hkept.unwritten_only u hu)
    · rw [Function.update_of_ne hjr] at hu
      exact hc.unwritten j u hu
  · by_cases hjr : j = r
    · subst hjr
      rw [Function.update_self] at hw
      rw [materializing_turn hok h hw]
      refine hlatest j hr (unsettled_of_busy hs fun hb => ?_).2
      exact busy_of_materializing hw (writeStep_quiet hb h).2
    · rw [Function.update_of_ne hjr] at hw
      have hquiet := quiet_of_ne hs (busy_of_materializing hw) (Ne.symm hjr)
      rw [(writeStep_quiet hquiet h).1]
      exact hc.writing j ydoc hw

theorem covered_step (hs : Inv start docBusEnabled f.site) (hc : Covered start f)
    {e : Reopen.Event} (hsplits : Splits f.site e)
    (h : step docBusEnabled docId f e = some f') : Covered start f' := by
  cases moved hs h with
  | turned hturned => exact covered_turned hc hturned
  | edited => exact covered_edited hc
  | opened hr hdoc hwork hstored => exact covered_opened hs hr hdoc hwork hstored
  | wrote he hok hwrite =>
      subst he
      exact covered_wrote hs hc hok hsplits hwrite

/-! ## What a step keeps -/

/-- What was ready, applied, stored, shown or settled stays so. -/
structure Grown (f f' : File) : Prop where
  ready : ∀ r, f.site.doc.creation r = .ready → f'.site.doc.creation r = .ready
  settled : ∀ r, f.site.doc.finalWrite r = .settled → f'.site.doc.finalWrite r = .settled
  ydoc : ∀ r, f.site.doc.creation r = .ready → (f.site.work r).ydoc ⊆ (f'.site.work r).ydoc
  stored : contents f.site.store.tables ⊆ contents f'.site.store.tables
  saved : ∀ u, Saved f u → Saved f' u

theorem Grown.refl (f : File) : Grown f f :=
  ⟨fun _ => id, fun _ => id, fun _ _ => Finset.Subset.refl _, Finset.Subset.refl _, fun _ => id⟩

theorem grown_step (hs : Inv start docBusEnabled f.site) (hc : Covered start f)
    {e : Reopen.Event} (hsplits : Splits f.site e)
    (h : step docBusEnabled docId f e = some f') : Grown f f' := by
  cases moved hs h with
  | turned hturned =>
      exact ⟨fun r => (hturned.ready r).mpr, hturned.settled, fun r _ => (hturned.work r).ydoc.ge,
        hturned.stored.ge, fun u hu => ⟨hturned.stored.ge hu.1, hturned.content.ge hu.2⟩⟩
  | edited hr _ =>
      exact ⟨fun _ => id, fun _ => id,
        fun r _ => ydoc_subset_setWork Finset.subset_union_left r, Finset.Subset.refl _,
        fun _ => id⟩
  | @opened r _ ydoc hr hdoc hwork hstored hcontent =>
      have hne : ∀ j, f.site.doc.creation j = .ready → j ≠ r := by
        rintro j hj rfl
        simp [hr] at hj
      refine ⟨fun j hj => ?_, fun j hj => by rwa [hdoc], fun j hj => ?_, ?_, fun u hu => ?_⟩
      · rw [hdoc]
        exact (Function.update_of_ne (hne j hj) _ _).trans hj
      · rw [hwork, Function.update_of_ne (hne j hj)]
      · rcases hcontent with ⟨hall, -⟩ | ⟨htables, -⟩
        · rw [hall, hstored]
        · rw [htables, contents_empty]
          exact Finset.empty_subset _
      · rcases hcontent with ⟨hall, hkept⟩ | ⟨htables, -⟩
        · exact ⟨hstored ▸ hall ▸ hu.1, hkept ▸ hu.2⟩
        · have hstored := hu.1
          rw [htables, contents_empty] at hstored
          exact absurd hstored (Finset.notMem_empty u)
  | @wrote r e store buffer he hok hwrite =>
      subst he
      have hkept := (kept_turn hs.sequenced (hs.current r) hsplits hwrite).stored
      have hsame : (f.site.work r).ydoc ⊆ ({ f.site.work r with buffer } : Work).ydoc :=
        Finset.Subset.refl _
      exact ⟨fun _ => id, fun _ => id, fun j _ => ydoc_subset_setWork hsame j, hkept,
        fun u hu => ⟨hkept hu.1, mem_materialized hc r e hu⟩⟩

/-- A step that is no edit leaves the documents alone.  A room that it opens has
what was stored at the start, what others have, or the seed. -/
theorem ydoc_step (hs : Inv start docBusEnabled f.site) (hc : Covered start f)
    {e : Reopen.Event} (he : isEdit e = false) (h : step docBusEnabled docId f e = some f') :
    (∀ r, f.site.doc.creation r = .ready → (f'.site.work r).ydoc = (f.site.work r).ydoc) ∧
      ∀ r, f'.site.doc.creation r = .ready → ∀ u ∈ (f'.site.work r).ydoc,
        u ∈ contents start ∨ (∃ k, f.site.doc.creation k = .ready ∧ u ∈ (f.site.work k).ydoc) ∨
          u ∈ seedsIn (contents f'.site.store.tables) := by
  cases moved hs h with
  | turned hturned =>
      refine ⟨fun r _ => (hturned.work r).ydoc, fun r hr u hu => Or.inr (Or.inl ⟨r, ?_, ?_⟩)⟩
      · exact (hturned.ready r).mp hr
      · exact (hturned.work r).ydoc ▸ hu
  | edited _ hedit => simp [he] at hedit
  | @opened r _ ydoc hr hdoc hwork hstored hcontent =>
      have hother : ∀ j, j ≠ r → (f'.site.work j).ydoc = (f.site.work j).ydoc := by
        intro j hj
        rw [hwork, Function.update_of_ne hj]
      refine ⟨fun j hj => hother j ?_, fun j hj u hu => ?_⟩
      · rintro rfl
        simp [hr] at hj
      · by_cases hjr : j = r
        · have hnew : u ∈ ydoc := by
            rw [hjr, hwork, Function.update_self] at hu
            exact hu
          rcases hcontent with ⟨hall, -⟩ | ⟨-, content, rfl⟩
          · exact (hc.source u (hall ▸ hnew)).imp_right Or.inl
          · rw [hstored, seedsIn_seedOf]
            exact Or.inr (Or.inr hnew)
        · have hold : f'.site.doc.creation j = f.site.doc.creation j := by
            rw [hdoc]
            exact Function.update_of_ne hjr _ _
          exact Or.inr (Or.inl ⟨j, hold ▸ hj, hother j hjr ▸ hu⟩)
  | @wrote k _ _ buffer _ _ _ =>
      have hsame := fun r => (setBuffer_same f.site.work k buffer r).1
      exact ⟨fun r _ => hsame r, fun r hr u hu => Or.inr (Or.inl ⟨r, hr, hsame r ▸ hu⟩)⟩

/-- What stays owed while a buffer is pushed and is paid by its turns is paid or
still owed after a step. -/
theorem promised_step (hs : Inv start docBusEnabled f.site) (hc : Covered start f)
    {e : Reopen.Event} (hsplits : Splits f.site e)
    (h : step docBusEnabled docId f e = some f')
    {P : Finset Update → DocPersistence Update → Prop}
    (hpush : ∀ {stored b b'}, Pushed b b' → Counted b → P stored b → P stored b')
    (hmono : ∀ {stored stored' b}, stored ⊆ stored' → P stored b → P stored' b)
    (hturn : ∀ {e store buffer}, e.Splits f.site.store.tables →
      mayWrite (f.site.work r) e = true →
      writeStep docId f.site.store (f.site.work r).buffer e = some (store, buffer) →
      P (contents f.site.store.tables) (f.site.work r).buffer →
      P (contents store.tables) buffer ∨
        u ∈ contents store.tables ∧ u ∈ materialized (f.site.work r).buffer f.content e)
    (hready : f.site.doc.creation r = .ready)
    (hpromised : P (contents f.site.store.tables) (f.site.work r).buffer) :
    P (contents f'.site.store.tables) (f'.site.work r).buffer ∨ Saved f' u := by
  have hgrown := grown_step hs hc hsplits h
  have hpushed : Pushed (f.site.work r).buffer (f'.site.work r).buffer →
      P (contents f'.site.store.tables) (f'.site.work r).buffer :=
    fun hp => hmono hgrown.stored (hpush hp (hs.counted r) hpromised)
  cases moved hs h with
  | turned hturned => exact Or.inl (hpushed (hturned.work r).pushed)
  | @edited k update byteLength hk _ =>
      refine Or.inl (hpushed ?_)
      by_cases hkr : r = k
      · subst hkr
        simpa [Site.setWork] using pushed_onUpdate (f.site.work r).buffer ⟨update, byteLength⟩
      · simpa [Site.setWork, hkr] using Pushed.refl _
  | @opened k _ ydoc hk hdoc hwork hstored hcontent =>
      have hne : r ≠ k := by
        rintro rfl
        simp [hk] at hready
      exact Or.inl (hpushed (by rw [hwork, Function.update_of_ne hne]; exact .refl _))
  | @wrote k e store buffer he hok hwrite =>
      subst he
      by_cases hkr : r = k
      · subst hkr
        simp only [Saved, Site.setWork, Function.update_self]
        exact hturn hsplits hok hwrite hpromised
      · refine Or.inl (hpushed ?_)
        simpa [Site.setWork, hkr] using Pushed.refl _

theorem resume_of_mayWrite {w : Work} {e : WriteEvent Update} (hok : mayWrite w e = true)
    (hu : u ∈ w.ydoc) (ydoc : Finset Update) (he : e = .resume ydoc) : u ∈ ydoc := by
  subst he
  have heq : ydoc = w.ydoc := by simpa [mayWrite] using hok
  exact heq ▸ hu

theorem owed_step (hs : Inv start docBusEnabled f.site) (hc : Covered start f)
    {e : Reopen.Event} (hsplits : Splits f.site e)
    (h : step docBusEnabled docId f e = some f') {ticket : Nat}
    (hready : f.site.doc.creation r = .ready) (hu : u ∈ (f.site.work r).ydoc)
    (howed : Owed (contents f.site.store.tables) (f.site.work r).buffer ticket u) :
    Owed (contents f'.site.store.tables) (f'.site.work r).buffer ticket u ∨ Saved f' u := by
  refine promised_step hs hc hsplits h (P := fun stored b => Owed stored b ticket u)
    (fun hp _ => hp.owed) Owed.mono (fun hsplits hok hwrite => ?_) hready howed
  have hstored := (kept_turn hs.sequenced (hs.current r) hsplits hwrite).stored
  exact owed_turn hs.sequenced (writes_of_mayWrite hok) hstored (resume_of_mayWrite hok hu) hwrite

theorem awaits_step (hs : Inv start docBusEnabled f.site) (hc : Covered start f)
    {e : Reopen.Event} (hsplits : Splits f.site e)
    (h : step docBusEnabled docId f e = some f')
    (hready : f.site.doc.creation r = .ready) (hu : u ∈ (f.site.work r).ydoc)
    (hawaits : Awaits (contents f.site.store.tables) (f.site.work r).buffer u) :
    Awaits (contents f'.site.store.tables) (f'.site.work r).buffer u ∨ Saved f' u := by
  refine promised_step hs hc hsplits h (P := fun stored b => Awaits stored b u)
    (fun hp hb => hp.awaits hb) Awaits.mono (fun hsplits hok hwrite => ?_) hready hawaits
  have hstored := (kept_turn hs.sequenced (hs.current r) hsplits hwrite).stored
  exact awaits_turn hs.sequenced (writes_of_mayWrite hok) hstored (resume_of_mayWrite hok hu) hwrite

theorem doc_step {e : Reopen.Event} (h : step docBusEnabled docId f e = some f') :
    f'.site.doc = f.site.doc ∨ ∃ turn, (e = .control turn ∨ ∃ r found, turn = .create r found) ∧
      Rooms.step docBusEnabled f.site.doc turn = some f'.site.doc := by
  have hcreate : ∀ {r : RoomId} (found : Bool), f.site.doc.creation r = .building →
      ∃ turn, (e = .control turn ∨ ∃ r found, turn = .create r found) ∧
        Rooms.step docBusEnabled f.site.doc turn =
          some (f.site.doc.setCreation r (if found then .ready else .absent)) := by
    intro r found hr
    exact ⟨_, Or.inr ⟨r, found, rfl⟩, by simp only [Rooms.step, if_pos hr]⟩
  cases e with
  | write r e =>
      simp only [step, Option.ite_none_right_eq_some, Option.map_eq_some_iff] at h
      obtain ⟨-, p, -, rfl⟩ := h
      exact Or.inl rfl
  | writeSeed r =>
      obtain ⟨content, -, hsite, -⟩ := seed_eq_some h
      obtain ⟨content', -, hr, hnew⟩ := writeSeed_eq_some hsite
      rw [hnew]
      exact Or.inr (hcreate true hr)
  | control e =>
      obtain ⟨site, hsite, rfl⟩ := Option.map_eq_some_iff.mp h
      obtain ⟨doc, hdoc, rfl, -⟩ := control_eq_some hsite
      exact Or.inr ⟨e, Or.inl rfl, hdoc⟩
  | lookUp r file =>
      obtain ⟨site, hsite, rfl⟩ := Option.map_eq_some_iff.mp h
      obtain ⟨hr, -, ⟨-, rfl⟩ | ⟨content, -, rfl⟩⟩ := lookUp_eq_some hsite
      · exact Or.inr (hcreate false hr)
      · exact Or.inl rfl
  | readTail r =>
      obtain ⟨site, hsite, rfl⟩ := Option.map_eq_some_iff.mp h
      obtain ⟨content, snapshot, -, ⟨-, hr, rfl⟩ | ⟨-, rfl⟩⟩ := readTail_eq_some hsite
      · exact Or.inr (hcreate true hr)
      · exact Or.inl rfl
  | readSnapshot r =>
      obtain ⟨site, hsite, rfl⟩ := Option.map_eq_some_iff.mp h
      obtain ⟨content, -, rfl⟩ := readSnapshot_eq_some hsite
      exact Or.inl rfl
  | edit c edits byteLength =>
      obtain ⟨site, hsite, rfl⟩ := Option.map_eq_some_iff.mp h
      obtain ⟨r, -, rfl⟩ := edit_eq_some hsite
      exact Or.inl rfl
  | timerFires r =>
      obtain ⟨site, hsite, rfl⟩ := Option.map_eq_some_iff.mp h
      obtain ⟨buffer, -, rfl⟩ := timerFires_eq_some hsite
      exact Or.inl rfl
  | flush r =>
      obtain ⟨site, hsite, rfl⟩ := Option.map_eq_some_iff.mp h
      obtain ⟨-, rfl⟩ := flush_eq_some hsite
      exact Or.inl rfl
  | tick milliseconds =>
      cases h
      exact Or.inl rfl

end CollabIDE.Collab.FileContent
