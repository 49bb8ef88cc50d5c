import CollabIDE.Collab.Providers
/-!
# Offline editors converge

What an editor types while it has no open socket is in no queue.  Both ends of a
new socket send a step 1, and until the answer to one has arrived the frame that
will bring it is on its way; afterwards whatever one end lacks is in a frame in
flight to it.  Rooms only grow, and a reopened document has what its earlier
rooms had.
-/

namespace CollabIDE.Collab.Providers

open CollabIDE.Lib.Machine CollabIDE.Collab.Rooms CollabIDE.Collab.Reopen
open CollabIDE.Collab.FileContent CollabIDE.Persistence.DocStore CollabIDE.Persistence.Buffer

/-! ## The rooms of the document -/

section Rooms

variable {docBusEnabled : Bool} {docId : String} {f f' : File} {r k : RoomId} {u : Update}

/-- The registered room has everything that earlier rooms had. -/
theorem ydoc_subset_entry (hs : Reopen.Inv Tables.empty docBusEnabled f.site)
    (hentry : f.site.doc.entry = some r) (hr : f.site.doc.creation r = .ready)
    (hk : f.site.doc.creation k = .ready) :
    (f.site.work k).ydoc ⊆ (f.site.work r).ydoc := by
  have hle : k ≤ r := newest hs hentry (by simp [hk])
  rcases hle.eq_or_lt with rfl | hlt
  · exact Finset.Subset.refl _
  · calc (f.site.work k).ydoc ⊆ (f.site.work r).initial := hs.behind r k hlt hr hk
      _ ⊆ (f.site.work r).ydoc := hs.grown r

theorem seedsIn_subset_ydoc (hs : Reopen.Inv Tables.empty docBusEnabled f.site)
    (hr : f.site.doc.creation r = .ready) :
    seedsIn (contents f.site.store.tables) ⊆ (f.site.work r).ydoc := by
  calc seedsIn (contents f.site.store.tables) = seedsIn (f.site.work r).initial :=
        (hs.seeded (stored_of_ready hs hr)).seedsIn_eq (hs.opened r hr).2
    _ ⊆ (f.site.work r).initial := Finset.filter_subset _ _
    _ ⊆ (f.site.work r).ydoc := hs.grown r

theorem seedsIn_contents_mono {t t' : Tables Update} (h : contents t ⊆ contents t') :
    seedsIn (contents t) ⊆ seedsIn (contents t') := Finset.filter_subset_filter _ h

theorem control_doc {e : Rooms.Event}
    (h : FileContent.step docBusEnabled docId f (.control e) = some f') :
    Rooms.step docBusEnabled f.site.doc e = some f'.site.doc := by
  obtain ⟨site, hsite, rfl⟩ := Option.map_eq_some_iff.mp h
  obtain ⟨doc, hdoc, rfl, -⟩ := control_eq_some hsite
  exact hdoc

theorem conn_of_not_driven {e : Reopen.Event} (he : isDriven e = false)
    (h : FileContent.step docBusEnabled docId f e = some f') (c : ConnId) :
    (f.site.doc.conn c = .idle → f'.site.doc.conn c = .idle) ∧
      ∀ r, f'.site.doc.conn c = .inside r ↔ f.site.doc.conn c = .inside r := by
  rcases doc_step h with hsame | ⟨turn, hturn, hstep⟩
  · rw [hsame]
    exact ⟨id, fun _ => Iff.rfl⟩
  · refine conn_of_not_visits ?_ hstep c
    rcases hturn with rfl | ⟨r, found, rfl⟩
    · exact he
    · rfl

theorem isEdit_of_not_driven {e : Reopen.Event} (he : isDriven e = false) : isEdit e = false := by
  cases e with
  | edit => cases he
  | _ => rfl

end Rooms

/-! ## The invariant -/

/-- What the sender of a frame has. -/
def SyncMessage.content : SyncMessage → Finset Update
  | .step1 stateVector => stateVector
  | .step2 missing => missing
  | .update event => event

def SyncMessage.isStep1 : SyncMessage → Bool
  | .step1 _ => true
  | _ => false

theorem SyncMessage.applied_subset (message : SyncMessage) :
    message.applied ⊆ message.content := by
  cases message with
  | step1 => exact Finset.empty_subset _
  | _ => exact Finset.Subset.refl _

/-- The other end is about to be asked for what it has. -/
def Asks (frames : List SyncMessage) : Prop := ∃ message ∈ frames, message.isStep1 = true

/-- One of the frames brings the update. -/
def Brings (frames : List SyncMessage) (u : Update) : Prop :=
  ∃ message ∈ frames, u ∈ message.applied

theorem Asks.mono {frames frames' : List SyncMessage} (h : Asks frames)
    (hsub : ∀ message ∈ frames, message ∈ frames') : Asks frames' := by
  obtain ⟨message, hmem, hstep1⟩ := h
  exact ⟨message, hsub message hmem, hstep1⟩

theorem Brings.mono {frames frames' : List SyncMessage} {u : Update} (h : Brings frames u)
    (hsub : ∀ message ∈ frames, message ∈ frames') : Brings frames' u := by
  obtain ⟨message, hmem, hu⟩ := h
  exact ⟨message, hsub message hmem, hu⟩

variable {κ : Type}

/-- What holds of one socket, for the providers and the rooms beside it. -/
structure SocketInv (provider : κ → Provider) (f : File) (k : ConnId) (socket : Socket κ) :
    Prop where
  owned : ∀ c, (provider c).socket = some k → socket.owner = some c
  unused : socket.owner = none → socket = .unused κ
  unaccepted : socket.server = .connecting →
    f.site.doc.conn k = .idle ∧ socket.client ≠ .opened
  sentUp : ∀ message ∈ socket.unhandled, ∃ c, socket.owner = some c ∧
    message.content ⊆ (provider c).ydoc
  sentDown : ∀ message ∈ socket.down, ∃ r, f.site.doc.creation r = .ready ∧
    message.content ⊆ (f.site.work r).ydoc
  /-- The client asks for what the room has, or what it lacks is on its way. -/
  caught : ∀ c, (provider c).socket = some k → socket.client = .opened →
    socket.server = .opened → Asks socket.unhandled ∨ ∃ r, f.site.doc.conn k = .inside r ∧
      ∀ u ∈ (f.site.work r).ydoc, u ∈ (provider c).ydoc ∨ Brings socket.down u
  /-- The room asks for what the client has, or what it lacks is on its way. -/
  heard : ∀ c r, (provider c).socket = some k → socket.client ≠ .closed →
    socket.server = .opened → f.site.doc.conn k = .inside r → Asks socket.down ∨
      socket.client = .opened ∧
        ∀ u ∈ (provider c).ydoc, u ∈ (f.site.work r).ydoc ∨ Brings socket.unhandled u

/-- What a document may hold: the edits that were made, and the stored seed. -/
def State.known (s : State κ) : Finset Update :=
  s.made.image Update.edit ∪ seedsIn (contents s.file.site.store.tables)

structure Inv (docBusEnabled : Bool) (s : State κ) : Prop where
  site : Reopen.Inv Tables.empty docBusEnabled s.file.site
  ordered : s.file.site.store.Ordered
  covered : Covered Tables.empty s.file
  socket : ∀ k, SocketInv s.provider s.file k (s.socket k)
  provider_known : ∀ c, (s.provider c).ydoc ⊆ s.known
  room_known : ∀ r, s.file.site.doc.creation r = .ready → s.room r ⊆ s.known
  made : ∀ n ∈ s.made, ∃ c, .edit n ∈ (s.provider c).ydoc

theorem socketInv_unused {provider : κ → Provider} {f : File} {k : ConnId}
    (hprovider : ∀ c, (provider c).socket ≠ some k) (hconn : f.site.doc.conn k = .idle) :
    SocketInv provider f k (.unused κ) where
  owned := fun c h => absurd h (hprovider c)
  unused := fun _ => rfl
  unaccepted := fun _ => ⟨hconn, by simp [Socket.unused]⟩
  sentUp := by simp [Socket.unused, Socket.unhandled]
  sentDown := by simp [Socket.unused]
  caught := fun c h => absurd h (hprovider c)
  heard := fun c _ h => absurd h (hprovider c)

theorem socketInv_connect {provider : κ → Provider} {f : File} {k : ConnId} {c : κ}
    (hprovider : ∀ j, (provider j).socket = some k → j = c) (hconn : f.site.doc.conn k = .idle) :
    SocketInv provider f k { Socket.unused κ with owner := some c } where
  owned := fun j hj => by rw [hprovider j hj]
  unused := fun hnone => by cases hnone
  unaccepted := fun _ => ⟨hconn, by simp [Socket.unused]⟩
  sentUp := by simp [Socket.unused, Socket.unhandled]
  sentDown := by simp [Socket.unused]
  caught := fun _ _ hopened => by cases hopened
  heard := fun _ _ _ _ hopen => by cases hopen

theorem inv_init (docBusEnabled : Bool) (clock : Int) :
    Inv docBusEnabled (State.init κ clock) where
  site := Reopen.inv_init (.empty clock) docBusEnabled
  ordered := ordered_empty clock
  covered := covered_init (.empty clock) ∅
  socket := fun k => socketInv_unused (fun _ => by simp [State.init]) rfl
  provider_known := fun _ => Finset.empty_subset _
  room_known := fun _ h => by cases h
  made := fun n hn => absurd hn (Finset.notMem_empty n)

/-! ## One socket -/

section Socket

variable {provider provider' : κ → Provider} {f f' : File} {k : ConnId} {r : RoomId}
  {socket socket' : Socket κ} {docBusEnabled : Bool}

theorem SocketInv.owner_ne_none (h : SocketInv provider f k socket)
    (hserver : socket.server ≠ .connecting) : socket.owner ≠ none := fun hnone =>
  hserver (by rw [h.unused hnone, Socket.unused])

theorem SocketInv.eq_of_listens {c j : κ} (h : SocketInv provider f k socket)
    (hc : (provider c).socket = some k) (hj : (provider j).socket = some k) : j = c :=
  Option.some.inj ((h.owned j hj).symm.trans (h.owned c hc))

theorem SocketInv.mute (h : SocketInv provider f k socket) (hne : socket.owner ≠ none)
    (howner : socket'.owner = socket.owner)
    (hserver : socket'.server = .connecting →
      socket.server = .connecting ∧ socket'.client ≠ .opened)
    (hup : ∀ message ∈ socket'.unhandled, message ∈ socket.unhandled)
    (hdown : ∀ message ∈ socket'.down, message ∈ socket.down)
    (hmute : socket'.client = .closed ∨ socket'.server ≠ .opened) :
    SocketInv provider f k socket' where
  owned := fun c hc => howner.trans (h.owned c hc)
  unused := fun hnone => absurd (howner.symm.trans hnone) hne
  unaccepted := fun hs => ⟨(h.unaccepted (hserver hs).1).1, (hserver hs).2⟩
  sentUp := fun message hm => howner ▸ h.sentUp message (hup message hm)
  sentDown := fun message hm => h.sentDown message (hdown message hm)
  caught := fun c _ hopened hs => by
    rcases hmute with hclosed | hnot
    · simp [hclosed] at hopened
    · exact absurd hs hnot
  heard := fun c r _ hlive hs => by
    rcases hmute with hclosed | hnot
    · exact absurd hclosed hlive
    · exact absurd hs hnot

theorem SocketInv.drop (h : SocketInv provider f k socket) (hne : socket.owner ≠ none) :
    SocketInv provider f k socket.drop := by
  refine h.mute hne rfl (fun hserver => ⟨hserver, by simp [Socket.drop]⟩) ?_ ?_ (Or.inl rfl)
  · simpa [Socket.drop, Socket.unhandled] using fun _ => Or.inl
  · simp [Socket.drop]

theorem SocketInv.setProvider (h : SocketInv provider f k socket)
    (hgrown : ∀ c, (provider c).ydoc ⊆ (provider' c).ydoc)
    (hsame : ∀ c, (provider' c).socket = some k → provider' c = provider c) :
    SocketInv provider' f k socket where
  owned := fun c hc => h.owned c (hsame c hc ▸ hc)
  unused := h.unused
  unaccepted := h.unaccepted
  sentUp := by
    intro message hm
    obtain ⟨c, hc, hcontent⟩ := h.sentUp message hm
    exact ⟨c, hc, hcontent.trans (hgrown c)⟩
  sentDown := h.sentDown
  caught := fun c hc => by
    rw [hsame c hc]
    exact h.caught c (hsame c hc ▸ hc)
  heard := fun c r hc => by
    rw [hsame c hc]
    exact h.heard c r (hsame c hc ▸ hc)

/-- What a turn may do to the connection of a socket: nothing before the upgrade,
and while the server's end is open it enters a room after a step 1 only. -/
structure Follows (socket : Socket κ) (conn conn' : Conn) : Prop where
  idle : socket.server = .connecting → conn = .idle → conn' = .idle
  stays : socket.server = .opened → ∀ r, conn = .inside r → conn' = .inside r
  enters : socket.server = .opened → ∀ r, conn' = .inside r → conn = .inside r ∨ Asks socket.down

theorem SocketInv.setFile (hs : Reopen.Inv Tables.empty docBusEnabled f.site)
    (h : SocketInv provider f k socket)
    (hready : ∀ r, f.site.doc.creation r = .ready → f'.site.doc.creation r = .ready)
    (hydoc : ∀ r, f.site.doc.creation r = .ready → (f'.site.work r).ydoc = (f.site.work r).ydoc)
    (hconn : Follows socket (f.site.doc.conn k) (f'.site.doc.conn k)) :
    SocketInv provider f' k socket := by
  have hinside : ∀ r, f.site.doc.conn k = .inside r →
      (f'.site.work r).ydoc = (f.site.work r).ydoc := fun r hr =>
    hydoc r (entry_of_holds hs.rooms (Or.inr (Or.inl hr))).2
  refine { h with
    unaccepted := fun hserver => ?_, sentDown := fun message hm => ?_,
    caught := fun c hc hopened hserver => ?_, heard := fun c r hc hlive hserver hr => ?_ }
  · obtain ⟨hidle, hclient⟩ := h.unaccepted hserver
    exact ⟨hconn.idle hserver hidle, hclient⟩
  · obtain ⟨r, hr, hcontent⟩ := h.sentDown message hm
    exact ⟨r, hready r hr, (hydoc r hr).symm ▸ hcontent⟩
  · refine (h.caught c hc hopened hserver).imp_right ?_
    rintro ⟨r, hr, hall⟩
    refine ⟨r, hconn.stays hserver r hr, ?_⟩
    rwa [hinside r hr]
  · rcases hconn.enters hserver r hr with hold | hasks
    · rw [hinside r hold]
      exact h.heard c r hc hlive hserver hold
    · exact Or.inl hasks

/-- An update applied to one room. -/
structure Applied (f f' : File) (r : RoomId) (fresh : Finset Update) : Prop where
  doc : f'.site.doc = f.site.doc
  ydoc : ∀ j u, u ∈ (f'.site.work j).ydoc ↔ u ∈ (f.site.work j).ydoc ∨ j = r ∧ u ∈ fresh

theorem Applied.subset {fresh : Finset Update} (ha : Applied f f' r fresh) (j : RoomId) :
    (f.site.work j).ydoc ⊆ (f'.site.work j).ydoc := fun u hu => (ha.ydoc j u).mpr (Or.inl hu)

theorem applied_setWork {w : Work} {fresh : Finset Update}
    (hw : w.ydoc = (f.site.work r).ydoc ∪ fresh) :
    Applied f { f with site := f.site.setWork r w } r fresh := by
  refine ⟨rfl, fun j u => ?_⟩
  simp only [Site.setWork]
  by_cases hj : j = r
  · rw [hj, Function.update_self, hw, Finset.mem_union]
    simp only [true_and]
  · rw [Function.update_of_ne hj]
    simp only [hj, false_and, or_false]

/-- What the room had already makes no difference. -/
theorem Applied.of_sdiff {update : Finset Update}
    (ha : Applied f f' r (update \ (f.site.work r).ydoc)) : Applied f f' r update := by
  refine ⟨ha.doc, fun j u => ?_⟩
  rw [ha.ydoc, Finset.mem_sdiff]
  constructor
  · exact Or.imp_right fun h => ⟨h.1, h.2.1⟩
  · rintro (hold | ⟨rfl, hnew⟩)
    · exact Or.inl hold
    · by_cases hold : u ∈ (f.site.work j).ydoc
      · exact Or.inl hold
      · exact Or.inr ⟨rfl, hnew, hold⟩

theorem applied_refl (f : File) (r : RoomId) : Applied f f r ∅ :=
  ⟨rfl, fun _ u => by simp⟩

theorem SocketInv.sentDown_applied {fresh : Finset Update} (h : SocketInv provider f k socket)
    (ha : Applied f f' r fresh) {message : SyncMessage} (hm : message ∈ socket.down) :
    ∃ r, f'.site.doc.creation r = .ready ∧ message.content ⊆ (f'.site.work r).ydoc := by
  obtain ⟨j, hj, hcontent⟩ := h.sentDown message hm
  exact ⟨j, ha.doc ▸ hj, hcontent.trans (ha.subset j)⟩

/-- A socket that the update did not come from: it is sent the update, if it is
in the room. -/
theorem SocketInv.peer {fresh : Finset Update} (hs : Reopen.Inv Tables.empty docBusEnabled f.site)
    (h : SocketInv provider f k socket) (ha : Applied f f' r fresh)
    (hr : f.site.doc.creation r = .ready)
    (hsent : socket' = if k ∈ (f.site.doc.room r).conns then socket.sendDown (.update fresh)
      else socket) : SocketInv provider f' k socket' := by
  have hsame : socket'.owner = socket.owner ∧ socket'.client = socket.client ∧
      socket'.server = socket.server ∧ socket'.unhandled = socket.unhandled := by
    rw [hsent]
    split <;> simp
  obtain ⟨howner, hclient, hserver, hup⟩ := hsame
  have hdown : ∀ m, m ∈ socket'.down ↔ m ∈ socket.down ∨
      (k ∈ (f.site.doc.room r).conns ∧ socket.server = .opened) ∧ m = .update fresh := by
    intro m
    rw [hsent]
    split
    · next hmem => simp only [Socket.mem_sendDown, hmem, true_and]
    · next hmem => simp only [hmem, false_and, or_false]
  have hkept : ∀ m ∈ socket.down, m ∈ socket'.down := fun m hm => (hdown m).mpr (Or.inl hm)
  refine ⟨fun c hc => howner.trans (h.owned c hc), fun hnone => ?_, ?_, ?_, fun m hm => ?_,
    fun c hc hopened hopen => ?_, fun c j hc hlive hopen hj => ?_⟩
  · have hunused := h.unused (howner.symm.trans hnone)
    rw [hsent, hunused]
    exact ite_self _
  · rw [hserver, hclient, ha.doc]
    exact h.unaccepted
  · rw [hup, howner]
    exact h.sentUp
  · rcases (hdown m).mp hm with hold | ⟨-, rfl⟩
    · exact h.sentDown_applied ha hold
    · exact ⟨r, ha.doc ▸ hr, fun u hu => (ha.ydoc r u).mpr (Or.inr ⟨rfl, hu⟩)⟩
  · rw [hclient] at hopened
    rw [hserver] at hopen
    rw [hup, ha.doc]
    refine (h.caught c hc hopened hopen).imp_right ?_
    rintro ⟨j, hj, hall⟩
    refine ⟨j, hj, fun u hu => ?_⟩
    rcases (ha.ydoc j u).mp hu with hold | ⟨rfl, hnew⟩
    · exact (hall u hold).imp_right fun hb => hb.mono hkept
    · have hmem : k ∈ (f.site.doc.room j).conns :=
        (hs.rooms.conns_iff j k).mpr (Or.inr (Or.inl hj))
      exact Or.inr ⟨_, (hdown _).mpr (Or.inr ⟨⟨hmem, hopen⟩, rfl⟩), hnew⟩
  · rw [hclient] at hlive ⊢
    rw [hserver] at hopen
    rw [ha.doc] at hj
    rw [hup]
    rcases h.heard c j hc hlive hopen hj with hasks | ⟨hopened, hall⟩
    · exact Or.inl (hasks.mono hkept)
    · exact Or.inr ⟨hopened, fun u hu => (hall u hu).imp_left fun hu => ha.subset j hu⟩

/-- The server takes a frame that it has not handled. -/
structure Takes (socket : Socket κ) (message : SyncMessage) (socket' : Socket κ) : Prop where
  owner : socket'.owner = socket.owner
  client : socket'.client = socket.client
  server : socket'.server = socket.server
  down : socket'.down = socket.down
  up : ∀ m, m ∈ socket.unhandled ↔ m = message ∨ m ∈ socket'.unhandled

theorem SocketInv.content_subset {message : SyncMessage} {c : κ}
    (h : SocketInv provider f k socket) (ht : Takes socket message socket')
    (hc : (provider c).socket = some k) : message.content ⊆ (provider c).ydoc := by
  obtain ⟨c', hc', hcontent⟩ := h.sentUp message ((ht.up message).mpr (Or.inl rfl))
  cases hc'.symm.trans (h.owned c hc)
  exact hcontent

theorem SocketInv.owner_of_takes {message : SyncMessage} (h : SocketInv provider f k socket)
    (ht : Takes socket message socket') : socket'.owner ≠ none := by
  obtain ⟨c, hc, -⟩ := h.sentUp message ((ht.up message).mpr (Or.inl rfl))
  simp [ht.owner, hc]

theorem SocketInv.origin {message : SyncMessage} (h : SocketInv provider f k socket)
    (ha : Applied f f' r message.applied) (hk : f.site.doc.conn k = .inside r)
    (ht : Takes socket message socket') (hstep1 : message.isStep1 = false) :
    SocketInv provider f' k socket' where
  owned := fun c hc => ht.owner.trans (h.owned c hc)
  unused := fun hnone => absurd hnone (h.owner_of_takes ht)
  unaccepted := by
    rw [ht.server, ht.client, ha.doc]
    exact h.unaccepted
  sentUp := by
    intro m hm
    rw [ht.owner]
    exact h.sentUp m ((ht.up m).mpr (Or.inr hm))
  sentDown := by
    intro m hm
    exact h.sentDown_applied ha (ht.down ▸ hm)
  caught := by
    intro c hc hopened hopen
    rw [ht.client] at hopened
    rw [ht.server] at hopen
    rw [ht.down, ha.doc]
    rcases h.caught c hc hopened hopen with ⟨m, hm, hm1⟩ | ⟨j, hj, hall⟩
    · rcases (ht.up m).mp hm with rfl | hlater
      · simp [hstep1] at hm1
      · exact Or.inl ⟨m, hlater, hm1⟩
    · refine Or.inr ⟨j, hj, fun u hu => ?_⟩
      rcases (ha.ydoc j u).mp hu with hold | ⟨-, hnew⟩
      · exact hall u hold
      -- the update is the sender's own
      · exact Or.inl (h.content_subset ht hc (message.applied_subset hnew))
  heard := by
    intro c j hc hlive hopen hj
    rw [ht.client] at hlive ⊢
    rw [ht.server] at hopen
    rw [ha.doc] at hj
    rw [ht.down]
    refine (h.heard c j hc hlive hopen hj).imp_right ?_
    rintro ⟨hopened, hall⟩
    refine ⟨hopened, fun u hu => ?_⟩
    rcases hall u hu with hold | ⟨m, hm, hbrings⟩
    · exact Or.inl (ha.subset j hold)
    · rcases (ht.up m).mp hm with rfl | hlater
      · cases hk.symm.trans hj
        exact Or.inl ((ha.ydoc r u).mpr (Or.inr ⟨rfl, hbrings⟩))
      · exact Or.inr ⟨m, hlater, hbrings⟩

theorem SocketInv.answer {stateVector : Finset Update} (h : SocketInv provider f k socket)
    (hr : f.site.doc.creation r = .ready) (hk : f.site.doc.conn k = .inside r)
    (ht : Takes socket (.step1 stateVector) socket') :
    SocketInv provider f k (socket'.sendDown (.step2 ((f.site.work r).ydoc \ stateVector))) where
  owned := fun c hc => by rw [Socket.sendDown_owner, ht.owner, h.owned c hc]
  unused := fun hnone => absurd (by simpa using hnone) (h.owner_of_takes ht)
  unaccepted := by
    rw [Socket.sendDown_server, Socket.sendDown_client, ht.server, ht.client]
    exact h.unaccepted
  sentUp := by
    intro m hm
    rw [Socket.sendDown_owner, ht.owner]
    exact h.sentUp m ((ht.up m).mpr (Or.inr (by simpa using hm)))
  sentDown := by
    intro m hm
    rcases (Socket.mem_sendDown _ _).mp hm with hold | ⟨-, rfl⟩
    · exact h.sentDown m (ht.down ▸ hold)
    · exact ⟨r, hr, Finset.sdiff_subset⟩
  caught := by
    intro c hc hopened hopen
    rw [Socket.sendDown_server] at hopen
    refine Or.inr ⟨r, hk, fun u hu => ?_⟩
    by_cases hknown : u ∈ stateVector
    · exact Or.inl (h.content_subset ht hc hknown)
    · exact Or.inr ⟨_, (Socket.mem_sendDown _ _).mpr (Or.inr ⟨hopen, rfl⟩),
        Finset.mem_sdiff.mpr ⟨hu, hknown⟩⟩
  heard := by
    intro c j hc hlive hopen hj
    rw [Socket.sendDown_client, ht.client] at hlive ⊢
    rw [Socket.sendDown_server, ht.server] at hopen
    rw [Socket.sendDown_unhandled]
    rcases h.heard c j hc hlive hopen hj with hasks | ⟨hopened, hall⟩
    · exact Or.inl (hasks.mono fun m hm => (Socket.mem_sendDown _ _).mpr (Or.inl (ht.down ▸ hm)))
    · refine Or.inr ⟨hopened, fun u hu => (hall u hu).imp_right ?_⟩
      rintro ⟨m, hm, hbrings⟩
      rcases (ht.up m).mp hm with rfl | hlater
      · exact absurd hbrings (Finset.notMem_empty u)
      · exact ⟨m, hlater, hbrings⟩

theorem SocketInv.greeted {stateVector : Finset Update} (h : SocketInv provider f k socket)
    (hr : f.site.doc.creation r = .ready) (hsub : stateVector ⊆ (f.site.work r).ydoc) :
    SocketInv provider f k (socket.sendDown (.step1 stateVector)) where
  owned := fun c hc => (Socket.sendDown_owner _ _).trans (h.owned c hc)
  unused := fun hnone => by
    rw [Socket.sendDown_owner] at hnone
    rw [h.unused hnone]
    rfl
  unaccepted := by
    rw [Socket.sendDown_server, Socket.sendDown_client]
    exact h.unaccepted
  sentUp := by
    rw [Socket.sendDown_unhandled, Socket.sendDown_owner]
    exact h.sentUp
  sentDown := by
    intro m hm
    rcases (Socket.mem_sendDown _ _).mp hm with hold | ⟨-, rfl⟩
    · exact h.sentDown m hold
    · exact ⟨r, hr, hsub⟩
  caught := by
    intro c hc hopened hopen
    rw [Socket.sendDown_client] at hopened
    rw [Socket.sendDown_server] at hopen
    rw [Socket.sendDown_unhandled]
    refine (h.caught c hc hopened hopen).imp_right ?_
    rintro ⟨j, hj, hall⟩
    refine ⟨j, hj, fun u hu => (hall u hu).imp_right fun hb => hb.mono fun m hm => ?_⟩
    exact (Socket.mem_sendDown _ _).mpr (Or.inl hm)
  heard := by
    intro c j hc hlive hopen hj
    rw [Socket.sendDown_server] at hopen
    exact Or.inl ⟨_, (Socket.mem_sendDown _ _).mpr (Or.inr ⟨hopen, rfl⟩), rfl⟩

theorem SocketInv.typed (h : SocketInv provider f k socket)
    (hsocket : ∀ c, (provider' c).socket = (provider c).socket)
    (hgrown : ∀ c, (provider c).ydoc ⊆ (provider' c).ydoc)
    (howner : socket'.owner = socket.owner) (hclient : socket'.client = socket.client)
    (hserver : socket'.server = socket.server) (hdown : socket'.down = socket.down)
    (hne : socket.owner ≠ none)
    (hup : ∀ message ∈ socket'.unhandled, message ∈ socket.unhandled ∨
      ∃ c, socket.owner = some c ∧ message.content ⊆ (provider' c).ydoc)
    (hkept : ∀ message ∈ socket.unhandled, message ∈ socket'.unhandled)
    (hsent : ∀ c, (provider c).socket = some k → socket.client = .opened →
      ∀ u ∈ (provider' c).ydoc, u ∈ (provider c).ydoc ∨ Brings socket'.unhandled u) :
    SocketInv provider' f k socket' where
  owned := fun c hc => howner.trans (h.owned c ((hsocket c).symm.trans hc))
  unused := fun hnone => absurd (howner.symm.trans hnone) hne
  unaccepted := by
    rw [hserver, hclient]
    exact h.unaccepted
  sentUp := by
    intro message hm
    rw [howner]
    rcases hup message hm with hold | hnew
    · obtain ⟨c, hc, hcontent⟩ := h.sentUp message hold
      exact ⟨c, hc, hcontent.trans (hgrown c)⟩
    · exact hnew
  sentDown := fun message hm => h.sentDown message (hdown ▸ hm)
  caught := by
    intro c hc hopened hopen
    rw [hsocket] at hc
    rw [hclient] at hopened
    rw [hserver] at hopen
    rw [hdown]
    rcases h.caught c hc hopened hopen with hasks | ⟨r, hr, hall⟩
    · exact Or.inl (hasks.mono hkept)
    · exact Or.inr ⟨r, hr, fun u hu => (hall u hu).imp_left fun hu => hgrown c hu⟩
  heard := by
    intro c r hc hlive hopen hr
    rw [hsocket] at hc
    rw [hclient] at hlive ⊢
    rw [hserver] at hopen
    rw [hdown]
    refine (h.heard c r hc hlive hopen hr).imp_right ?_
    rintro ⟨hopened, hall⟩
    refine ⟨hopened, fun u hu => ?_⟩
    rcases hsent c hc hopened u hu with hold | hnew
    · exact (hall u hold).imp_right fun hb => hb.mono hkept
    · exact Or.inr hnew

theorem SocketInv.received {c : κ} {message : SyncMessage}
    (hs : Reopen.Inv Tables.empty docBusEnabled f.site)
    (h : SocketInv provider f k socket) (hc : (provider c).socket = some k)
    (hsocket : ∀ c, (provider' c).socket = (provider c).socket)
    (hgrown : ∀ c, (provider c).ydoc ⊆ (provider' c).ydoc)
    (hydoc : (provider' c).ydoc = (provider c).ydoc ∪ message.applied)
    (hopened : socket.client = .opened)
    (howner : socket'.owner = socket.owner) (hclient : socket'.client = socket.client)
    (hserver : socket'.server = socket.server)
    (hdown : socket.down = message :: socket'.down)
    (hup : ∀ m ∈ socket'.unhandled, m ∈ socket.unhandled ∨ m.content ⊆ (provider c).ydoc)
    (hkept : ∀ m ∈ socket.unhandled, m ∈ socket'.unhandled)
    (hreply : ∀ stateVector, message = .step1 stateVector →
      ∀ u ∈ (provider c).ydoc, u ∈ stateVector ∨ Brings socket'.unhandled u) :
    SocketInv provider' f k socket' := by
  have hown : socket.owner = some c := h.owned c hc
  have hthis : ∀ c', (provider' c').socket = some k → c' = c := fun c' hc' =>
    h.eq_of_listens hc ((hsocket c').symm.trans hc')
  have hroom : ∀ r, f.site.doc.conn k = .inside r → message.content ⊆ (f.site.work r).ydoc := by
    intro r hr
    obtain ⟨j, hj, hcontent⟩ := h.sentDown message (hdown ▸ List.mem_cons_self)
    obtain ⟨hentry, hready⟩ := entry_of_holds hs.rooms (Or.inr (Or.inl hr))
    exact hcontent.trans (ydoc_subset_entry hs hentry hready hj)
  refine ⟨fun c' hc' => ?_, fun hnone => ?_, ?_, fun m hm => ?_, fun m hm => ?_,
    fun c' hc' _ hopen => ?_, fun c' r hc' _ hopen hr => ?_⟩
  · rw [hthis c' hc', howner, hown]
  · simp [howner, hown] at hnone
  · rw [hserver, hclient]
    exact h.unaccepted
  · rw [howner]
    rcases hup m hm with hold | hnew
    · obtain ⟨c', hc', hcontent⟩ := h.sentUp m hold
      exact ⟨c', hc', hcontent.trans (hgrown c')⟩
    · exact ⟨c, hown, hnew.trans (hgrown c)⟩
  · exact h.sentDown m (hdown ▸ List.mem_cons_of_mem message hm)
  · rw [hserver] at hopen
    rw [hthis c' hc']
    rcases h.caught c hc hopened hopen with hasks | ⟨r, hr, hall⟩
    · exact Or.inl (hasks.mono hkept)
    · refine Or.inr ⟨r, hr, fun u hu => ?_⟩
      rw [hydoc, Finset.mem_union]
      rcases hall u hu with hold | ⟨m, hm, hbrings⟩
      · exact Or.inl (Or.inl hold)
      · rcases List.mem_cons.mp (hdown ▸ hm) with rfl | hlater
        · exact Or.inl (Or.inr hbrings)
        · exact Or.inr ⟨m, hlater, hbrings⟩
  · rw [hserver] at hopen
    rw [hthis c' hc', hclient, hydoc]
    have hall : Asks socket'.down ∨ ∀ u ∈ (provider c).ydoc,
        u ∈ (f.site.work r).ydoc ∨ Brings socket'.unhandled u := by
      have hlive : socket.client ≠ .closed := by simp [hopened]
      rcases h.heard c r hc hlive hopen hr with ⟨m, hm, hm1⟩ | ⟨-, hall⟩
      · rcases List.mem_cons.mp (hdown ▸ hm) with rfl | hlater
        · cases m with
          | step1 stateVector =>
              refine Or.inr fun u hu => (hreply stateVector rfl u hu).imp_left fun hknown => ?_
              exact hroom r hr hknown
          | _ => cases hm1
        · exact Or.inl ⟨m, hlater, hm1⟩
      · exact Or.inr fun u hu => (hall u hu).imp_right fun hb => hb.mono hkept
    refine hall.imp_right fun hall => ⟨hopened, fun u hu => ?_⟩
    rcases Finset.mem_union.mp hu with hold | hnew
    · exact hall u hold
    · exact Or.inl (hroom r hr (message.applied_subset hnew))

end Socket

/-! ## The steps -/

section Steps

variable {docBusEnabled : Bool} {docId : String} {byteLength : Finset Update → Nat}
  {s s' : State κ} {c : κ} {k : ConnId} {r : RoomId}

theorem inv_setSocket {socket : Socket κ} (hs : Inv docBusEnabled s)
    (h : SocketInv s.provider s.file k socket) : Inv docBusEnabled (s.setSocket k socket) :=
  { hs with
    socket := by
      intro j
      by_cases hj : j = k
      · subst hj
        simpa [State.setSocket] using h
      · simpa [State.setSocket, hj] using hs.socket j }

theorem inv_setFile {e : Reopen.Event} {f : File} (hs : Inv docBusEnabled s)
    (he : isEdit e = false) (hforward : setsBack e = false)
    (h : FileContent.step docBusEnabled docId s.file e = some f)
    (hconn : ∀ k, Follows (s.socket k) (s.conn k) (f.site.doc.conn k)) :
    Inv docBusEnabled { s with file := f } := by
  have hsplits := splits_of_ordered hs.ordered e
  have hgrown := grown_step hs.site hs.covered hsplits h
  obtain ⟨hsame, hnew⟩ := ydoc_step hs.site hs.covered he h
  have hknown : s.known ⊆ ({ s with file := f } : State κ).known :=
    Finset.union_subset_union_right (seedsIn_contents_mono hgrown.stored)
  exact
  { site := site_inv_step hs.site hsplits h
    ordered := site_ordered_step hs.site hs.ordered hforward h
    covered := covered_step hs.site hs.covered hsplits h
    socket := fun k => (hs.socket k).setFile hs.site hgrown.ready hsame (hconn k)
    provider_known := fun c => (hs.provider_known c).trans hknown
    room_known := by
      intro r hr u hu
      rcases hnew r hr u hu with hstart | ⟨k, hk, hold⟩ | hseed
      · exact absurd hstart (contents_empty ▸ Finset.notMem_empty u)
      · exact hknown (hs.room_known k hk hold)
      · exact Finset.mem_union_right _ hseed
    made := hs.made }

theorem follows_refl (socket : Socket κ) (conn : Conn) : Follows socket conn conn :=
  ⟨fun _ => id, fun _ _ => id, fun _ _ => Or.inl⟩

theorem inv_site {e : Reopen.Event} {f : File} (hs : Inv docBusEnabled s)
    (he : isDriven e = false) (hforward : setsBack e = false)
    (h : FileContent.step docBusEnabled docId s.file e = some f) :
    Inv docBusEnabled { s with file := f } := by
  refine inv_setFile hs (isEdit_of_not_driven he) hforward h fun k => ?_
  obtain ⟨hidle, hinside⟩ := conn_of_not_driven he h k
  exact ⟨fun _ => hidle, fun _ r => (hinside r).mpr, fun _ r hr => Or.inl ((hinside r).mp hr)⟩

theorem inv_control {e : Rooms.Event} (hs : Inv docBusEnabled s)
    (h : controlFile docBusEnabled docId s e = some s')
    (hother : ∀ j, j ≠ k → s'.conn j = s.conn j)
    (hconn : Follows (s.socket k) (s.conn k) (s'.conn k)) : Inv docBusEnabled s' := by
  obtain ⟨f, hf, rfl⟩ := Option.map_eq_some_iff.mp h
  refine inv_setFile hs rfl rfl hf fun j => ?_
  by_cases hj : j = k
  · exact hj ▸ hconn
  · have hsame : f.site.doc.conn j = s.conn j := hother j hj
    exact hsame ▸ follows_refl _ _

theorem control_step {e : Rooms.Event} (h : controlFile docBusEnabled docId s e = some s') :
    Rooms.step docBusEnabled s.file.site.doc e = some s'.file.site.doc := by
  obtain ⟨f, hf, rfl⟩ := Option.map_eq_some_iff.mp h
  exact control_doc hf

theorem inv_authorize (hs : Inv docBusEnabled s) (hserver : (s.socket k).server ≠ .connecting)
    (h : controlFile docBusEnabled docId s (.join k) = some s') : Inv docBusEnabled s' := by
  have hdoc := control_step h
  simp only [Rooms.step, Option.ite_none_right_eq_some, Option.some.injEq] at hdoc
  obtain ⟨hidle, hdoc⟩ := hdoc
  obtain ⟨p, hconn⟩ := joinRoom_conn s.file.site.doc k
  rw [hdoc] at hconn
  have hself : s'.conn k = .awaiting p := by rw [State.conn, hconn, Function.update_self]
  refine inv_control hs h (fun j hj => ?_) ⟨fun hs => absurd hs hserver, fun _ r hr => ?_,
    fun _ r hr => ?_⟩
  · exact (congrFun hconn j).trans (Function.update_of_ne hj _ _)
  · exact absurd (hidle.symm.trans hr) (by simp)
  · exact absurd (hself.symm.trans hr) (by simp)

theorem inv_leave (hs : Inv docBusEnabled s) (hserver : (s.socket k).server = .closed)
    (h : controlFile docBusEnabled docId s (.leave k) = some s') : Inv docBusEnabled s' := by
  have hleave : ∀ d, Rooms.step docBusEnabled s.file.site.doc (.leave k) = some d →
      ∃ conn, d.conn = Function.update s.file.site.doc.conn k conn := by
    intro d hd
    cases took hd with
    | leave hc =>
        obtain ⟨conn, heq, -⟩ := leaveRoom_eq s.file.site.doc k
        exact ⟨conn, by rw [heq, Doc.setConn]⟩
  obtain ⟨conn, hconn⟩ := hleave _ (control_step h)
  refine inv_control (k := k) hs h (fun j hj => ?_)
    ⟨fun hs => ?_, fun hs => ?_, fun hs => ?_⟩
  · exact (congrFun hconn j).trans (Function.update_of_ne hj _ _)
  all_goals simp [hserver] at hs

/-! ## Frames for the server -/

theorem send_setSocket (s : State κ) (k : ConnId) (socket : Socket κ) (message : SyncMessage) :
    send (s.setSocket k socket) k message = s.setSocket k (socket.sendDown message) := by
  simp only [send, State.setSocket, Function.update_self, Function.update_idem]

theorem file_applyUpdate (docId : String) (byteLength : Finset Update → Nat)
    (hs : Inv docBusEnabled s) (hk : s.conn k = .inside r) {update : Finset Update}
    (hknown : update ⊆ s.known) (hfresh : update \ s.room r ≠ ∅) :
    ∃ edits, FileContent.step docBusEnabled docId s.file
        (.edit k edits (byteLength (update \ s.room r))) =
      some { s.file with site := s.file.site.setWork r { s.file.site.work r with
        ydoc := (s.file.site.work r).ydoc ∪ update \ s.room r
        buffer := onUpdate (s.file.site.work r).buffer
          ⟨update \ s.room r, byteLength (update \ s.room r)⟩ } } := by
  have hready := (entry_of_holds hs.site.rooms (Or.inr (Or.inl hk))).2
  refine ⟨s.made.filter fun n => .edit n ∈ update, ?_⟩
  have hedits : ((s.made.filter fun n => .edit n ∈ update).image Update.edit) \ s.room r =
      update \ s.room r := by
    ext u
    simp only [Finset.mem_sdiff, Finset.mem_image, Finset.mem_filter]
    constructor
    · rintro ⟨⟨n, ⟨-, hn⟩, rfl⟩, hnot⟩
      exact ⟨hn, hnot⟩
    · rintro ⟨hu, hnot⟩
      refine ⟨?_, hnot⟩
      rcases Finset.mem_union.mp (hknown hu) with hmade | hseed
      · obtain ⟨n, hn, rfl⟩ := Finset.mem_image.mp hmade
        exact ⟨n, ⟨hn, hu⟩, rfl⟩
      · exact absurd (seedsIn_subset_ydoc hs.site hready hseed) hnot
  have hconn : s.file.site.doc.conn k = .inside r := hk
  have happly := hedits
  simp only [State.room] at happly hfresh ⊢
  simp only [FileContent.step, Reopen.step, hconn, applyEdits, happly, if_neg hfresh,
    Option.map_some]

theorem inv_applyUpdate {message : SyncMessage} {socket : Socket κ} (hs : Inv docBusEnabled s)
    (hk : s.conn k = .inside r) (ht : Takes (s.socket k) message socket)
    (hstep1 : message.isStep1 = false) :
    Inv docBusEnabled (applyUpdate byteLength (s.setSocket k socket) r message.applied k) := by
  have hready := (entry_of_holds hs.site.rooms (Or.inr (Or.inl hk))).2
  obtain ⟨c, -, hcontent⟩ := (hs.socket k).sentUp message ((ht.up message).mpr (Or.inl rfl))
  have hknown : message.applied ⊆ s.known :=
    message.applied_subset.trans (hcontent.trans (hs.provider_known c))
  by_cases hempty : message.applied \ s.room r = ∅
  · have happlied : Applied s.file s.file r message.applied :=
      Applied.of_sdiff (hempty.symm ▸ applied_refl s.file r)
    have heq : applyUpdate byteLength (s.setSocket k socket) r message.applied k =
        s.setSocket k socket := if_pos hempty
    rw [heq]
    exact inv_setSocket hs ((hs.socket k).origin happlied hk ht hstep1)
  obtain ⟨edits, hfile⟩ := file_applyUpdate "" byteLength hs hk hknown hempty
  set f := ({ s.file with site := s.file.site.setWork r { s.file.site.work r with
    ydoc := (s.file.site.work r).ydoc ∪ message.applied \ s.room r
    buffer := onUpdate (s.file.site.work r).buffer
      ⟨message.applied \ s.room r, byteLength (message.applied \ s.room r)⟩ } } : File)
  have happlied : Applied s.file f r (message.applied \ s.room r) := applied_setWork rfl
  have heq : applyUpdate byteLength (s.setSocket k socket) r message.applied k =
      broadcast { s.setSocket k socket with file := f } r
        (.update (message.applied \ s.room r)) k := if_neg hempty
  rw [heq]
  refine
  { site := site_inv_step hs.site (splits_of_ordered hs.ordered _) hfile
    ordered := site_ordered_step hs.site hs.ordered rfl hfile
    covered := covered_step hs.site hs.covered (splits_of_ordered hs.ordered _) hfile
    socket := fun j => ?_
    provider_known := hs.provider_known
    room_known := fun j hj u hu => ?_
    made := hs.made }
  · by_cases hj : j = k
    · subst hj
      simpa [broadcast, State.setSocket] using
        (hs.socket j).origin happlied.of_sdiff hk ht hstep1
    · refine (hs.socket j).peer hs.site happlied hready ?_
      have hsame : (s.setSocket k socket).socket j = s.socket j := Function.update_of_ne hj _ _
      simp only [broadcast, hsame, hj, ne_eq, not_false_eq_true, and_true]
      rfl
  · rcases (happlied.ydoc j u).mp hu with hold | ⟨rfl, hnew⟩
    · exact hs.room_known j hj hold
    · exact hknown (Finset.mem_sdiff.mp hnew).1

theorem inv_handleMessage {message : SyncMessage} {socket : Socket κ} (hs : Inv docBusEnabled s)
    (hk : s.conn k = .inside r) (ht : Takes (s.socket k) message socket) :
    Inv docBusEnabled (handleMessage byteLength (s.setSocket k socket) r k message) := by
  cases message with
  | step1 stateVector =>
      have hready := (entry_of_holds hs.site.rooms (Or.inr (Or.inl hk))).2
      have happly : applyUpdate byteLength (s.setSocket k socket) r ∅ k = s.setSocket k socket :=
        if_pos (Finset.empty_sdiff _)
      have heq : handleMessage byteLength (s.setSocket k socket) r k (.step1 stateVector) =
          send (applyUpdate byteLength (s.setSocket k socket) r ∅ k) k
            (.step2 (s.room r \ stateVector)) := rfl
      rw [heq, happly, send_setSocket]
      exact inv_setSocket hs ((hs.socket k).answer hready hk ht)
  | step2 missing => exact inv_applyUpdate hs hk ht rfl
  | update event => exact inv_applyUpdate hs hk ht rfl

@[simp] theorem handleMessage_conn (s : State κ) (r : RoomId) (k : ConnId)
    (message : SyncMessage) : (handleMessage byteLength s r k message).conn = s.conn := by
  have happly : ∀ update, (applyUpdate byteLength s r update k).conn = s.conn := by
    intro update
    unfold applyUpdate
    dsimp only
    split <;> rfl
  cases message <;> exact happly _

@[simp] theorem handleMessage_queued (s : State κ) (r : RoomId) (k : ConnId)
    (message : SyncMessage) :
    ((handleMessage byteLength s r k message).socket k).queued = (s.socket k).queued := by
  have happly : ∀ update,
      ((applyUpdate byteLength s r update k).socket k).queued = (s.socket k).queued := by
    intro update
    unfold applyUpdate
    dsimp only
    split <;> simp [broadcast]
  cases message with
  | step1 stateVector =>
      simp only [handleMessage, SyncMessage.reply, send, State.setSocket, Function.update_self,
        Socket.sendDown_queued]
      exact happly _
  | _ => exact happly _

theorem inv_handleQueued (queued : List SyncMessage) {s : State κ} (hs : Inv docBusEnabled s)
    (hk : s.conn k = .inside r) (hqueued : (s.socket k).queued = queued) :
    Inv docBusEnabled (handleQueued byteLength s r k queued) := by
  induction queued generalizing s with
  | nil => exact hs
  | cons message queued ih =>
      have htakes : Takes (s.socket k) message { s.socket k with queued } :=
        ⟨rfl, rfl, rfl, rfl, by simp [Socket.unhandled, hqueued]⟩
      apply ih (inv_handleMessage hs hk htakes)
      · rw [handleMessage_conn]
        exact hk
      · simp [State.setSocket]

theorem inv_enter (hs : Inv docBusEnabled s) (hk : s.conn k = .joined r)
    (h : controlFile docBusEnabled docId s (.attach k) = some s') :
    Inv docBusEnabled (handleQueued byteLength (send s' k (.step1 (s'.room r))) r k
      ((send s' k (.step1 (s'.room r))).socket k).queued) := by
  have hready := (entry_of_holds hs.site.rooms (Or.inl hk)).2
  obtain ⟨f, hf, rfl⟩ := Option.map_eq_some_iff.mp h
  have hroom : ({ s with file := f } : State κ).room r = s.room r :=
    (ydoc_step hs.site hs.covered rfl hf).1 r hready
  have hconn : f.site.doc.conn = Function.update s.file.site.doc.conn k (.inside r) := by
    have hstep := control_doc hf
    have hk' : s.file.site.doc.conn k = .joined r := hk
    simp only [Rooms.step, hk', Option.some.injEq] at hstep
    rw [← hstep, Doc.setConn, (attachRoomObservers_rest docBusEnabled _ r).2.2]
  -- the step 1 is behind it as it enters
  have hgreeted : Inv docBusEnabled (send s k (.step1 (s.room r))) :=
    inv_setSocket hs ((hs.socket k).greeted hready (Finset.Subset.refl _))
  have hentered : Inv docBusEnabled (send { s with file := f } k (.step1 (s.room r))) := by
    refine inv_setFile hgreeted rfl rfl hf fun j => ?_
    rw [hconn]
    by_cases hj : j = k
    · subst hj
      rw [Function.update_self]
      refine ⟨fun hserver hidle => ?_, fun _ i hi => ?_, fun hopen _ _ => Or.inr ?_⟩
      · exact absurd (hk.symm.trans hidle) (by simp)
      · exact absurd (hk.symm.trans hi) (by simp)
      · simp only [send, State.setSocket, Function.update_self, Socket.sendDown_server] at hopen ⊢
        exact ⟨_, (Socket.mem_sendDown _ _).mpr (Or.inr ⟨hopen, rfl⟩), rfl⟩
    · rw [Function.update_of_ne hj]
      exact follows_refl _ _
  rw [hroom]
  apply inv_handleQueued _ hentered _ rfl
  exact (congrFun hconn k).trans (Function.update_self _ _ _)

theorem inv_reject (hs : Inv docBusEnabled s) (hserver : (s.socket k).server = .opened) :
    Inv docBusEnabled (s.setSocket k { s.socket k with server := .closing }) := by
  have hne := (hs.socket k).owner_ne_none (by simp [hserver])
  exact inv_setSocket hs ((hs.socket k).mute hne rfl (fun h => by cases h) (fun _ => id)
    (fun _ => id) (Or.inr (by simp)))

theorem Provider.send_of_none {message : SyncMessage} (hc : (s.provider c).socket = none) :
    Provider.send s c message = s := by
  simp only [Provider.send, hc]

theorem Provider.send_of_some {message : SyncMessage} (hc : (s.provider c).socket = some k) :
    Provider.send s c message = s.setSocket k ((s.socket k).sendUp message) := by
  simp only [Provider.send, hc]

theorem of_listener (h : s.listener k = some c) :
    (s.socket k).owner = some c ∧ (s.provider c).socket = some k := by
  simpa [State.listener, Option.filter_eq_some_iff] using h

theorem inv_opens (hs : Inv docBusEnabled s) (hlistener : s.listener k = some c)
    (hclient : (s.socket k).client = .connecting) (hserver : (s.socket k).server ≠ .connecting) :
    Inv docBusEnabled
      (Provider.handleOpen (s.setSocket k { s.socket k with client := .opened }) c) := by
  obtain ⟨hown, hc⟩ := of_listener hlistener
  have hsocket := hs.socket k
  have heq : Provider.handleOpen (s.setSocket k { s.socket k with client := .opened }) c =
      s.setSocket k { s.socket k with
        client := .opened, up := (s.socket k).up ++ [.step1 (s.provider c).ydoc] } := by
    have hc' : ((s.setSocket k { s.socket k with client := .opened }).provider c).socket =
        some k := hc
    rw [Provider.handleOpen, Provider.send_of_some hc']
    simp [State.setSocket, Socket.sendUp]
  rw [heq]
  refine inv_setSocket hs { hsocket with
    unused := fun hnone => ?_, unaccepted := fun h => absurd h hserver,
    sentUp := fun m hm => ?_, caught := fun j hj _ _ => Or.inl ?_,
    heard := fun j r hj _ hopen hr => ?_ }
  · simp [hown] at hnone
  · simp only [Socket.unhandled, ← List.append_assoc] at hm
    rcases List.mem_append.mp hm with hold | hnew
    · exact hsocket.sentUp m hold
    · rw [List.mem_singleton.mp hnew]
      exact ⟨c, hown, Finset.Subset.refl _⟩
  · exact ⟨.step1 (s.provider c).ydoc, by simp [Socket.unhandled], rfl⟩
  · refine Or.inl ((hsocket.heard j r hj (by simp [hclient]) hopen hr).resolve_right ?_)
    simp [hclient]

end Steps

section Events

variable [DecidableEq κ] {docBusEnabled : Bool} {docId : String}
  {byteLength : Finset Update → Nat} {s s' : State κ} {c : κ} {k : ConnId}

theorem inv_deliverUp {message : SyncMessage} {up : List SyncMessage} (hs : Inv docBusEnabled s)
    (hup : (s.socket k).up = message :: up)
    (h : step docBusEnabled docId byteLength s (.deliverUp k) = some s') :
    Inv docBusEnabled s' := by
  simp only [step, hup, Option.ite_none_right_eq_some] at h
  obtain ⟨-, h⟩ := h
  have hsocket := hs.socket k
  have hqueues : Inv docBusEnabled (s.setSocket k
      { s.socket k with up, queued := (s.socket k).queued ++ [message] }) := by
    have hsame : ({ s.socket k with up, queued := (s.socket k).queued ++ [message] } :
        Socket κ).unhandled = (s.socket k).unhandled := by
      simp [Socket.unhandled, hup]
    refine inv_setSocket hs { hsocket with
      unused := fun hnone => ?_, sentUp := ?_, caught := ?_, heard := ?_ }
    · have hempty := congrArg Socket.up (hsocket.unused hnone)
      simp [hup, Socket.unused] at hempty
    all_goals rw [hsame]
    · exact hsocket.sentUp
    · exact hsocket.caught
    · exact hsocket.heard
  cases hk : s.conn k with
  | inside r =>
      simp only [hk, Option.some.injEq] at h
      subst h
      exact inv_handleMessage hs hk ⟨rfl, rfl, rfl, rfl, by simp [Socket.unhandled, hup]; tauto⟩
  | _ =>
      simp only [hk, Option.some.injEq] at h
      exact h ▸ hqueues

theorem inv_serverClose (hs : Inv docBusEnabled s) (hserver : (s.socket k).server ≠ .connecting)
    (h : step docBusEnabled docId byteLength s (.serverClose k) = some s') :
    Inv docBusEnabled s' := by
  simp only [step, Option.ite_none_right_eq_some] at h
  obtain ⟨-, h⟩ := h
  have hclosed : Inv docBusEnabled
      (s.setSocket k { s.socket k with server := .closed, up := [], down := [] }) := by
    have hne := (hs.socket k).owner_ne_none hserver
    refine inv_setSocket hs ((hs.socket k).mute hne rfl (fun h => by cases h) ?_ ?_
      (Or.inr (by simp)))
    · simpa [Socket.unhandled] using fun _ => Or.inl
    · simp
  split at h
  · exact inv_leave hclosed (by simp [State.setSocket]) h
  · cases h
    exact hclosed

/-! ## What the providers do -/

theorem socket_setYdoc (provider : κ → Provider) (c : κ) (ydoc : Finset Update) (j : κ) :
    (Function.update provider c { provider c with ydoc } j).socket = (provider j).socket := by
  by_cases hj : j = c
  · rw [hj, Function.update_self]
  · rw [Function.update_of_ne hj]

theorem ydoc_subset_setYdoc {provider : κ → Provider} {ydoc : Finset Update}
    (h : (provider c).ydoc ⊆ ydoc) (j : κ) :
    (provider j).ydoc ⊆ (Function.update provider c { provider c with ydoc } j).ydoc := by
  by_cases hj : j = c
  · rw [hj, Function.update_self]
    exact h
  · rw [Function.update_of_ne hj]

theorem inv_provider {ydoc : Finset Update} (hs : Inv docBusEnabled s)
    (hprovider : s'.provider = Function.update s.provider c { s.provider c with ydoc })
    (hfile : s'.file = s.file) (hgrown : (s.provider c).ydoc ⊆ ydoc)
    (hknown : ydoc ⊆ s'.known) (hmade : s.made ⊆ s'.made)
    (hnew : ∀ n ∈ s'.made, n ∈ s.made ∨ .edit n ∈ ydoc)
    (hother : ∀ k, (s.provider c).socket ≠ some k → s'.socket k = s.socket k)
    (hown : ∀ k, (s.provider c).socket = some k →
      SocketInv s'.provider s.file k (s'.socket k)) : Inv docBusEnabled s' := by
  have hself : s'.provider c = { s.provider c with ydoc } := by rw [hprovider, Function.update_self]
  have hsame : ∀ j, j ≠ c → s'.provider j = s.provider j := by
    intro j hj
    rw [hprovider, Function.update_of_ne hj]
  have hall : ∀ j, (s.provider j).ydoc ⊆ (s'.provider j).ydoc := by
    rw [hprovider]
    exact ydoc_subset_setYdoc hgrown
  have hmore : s.known ⊆ s'.known := by
    unfold State.known
    rw [hfile]
    exact Finset.union_subset_union_left (Finset.image_subset_image hmade)
  refine ⟨hfile ▸ hs.site, hfile ▸ hs.ordered, hfile ▸ hs.covered, fun k => ?_, fun j => ?_,
    fun r hr => ?_, fun n hn => ?_⟩
  · rw [hfile]
    by_cases hk : (s.provider c).socket = some k
    · exact hown k hk
    · rw [hother k hk]
      refine (hs.socket k).setProvider hall fun j hj => hsame j ?_
      rintro rfl
      rw [hself] at hj
      exact hk hj
  · by_cases hj : j = c
    · rw [hj, hself]
      exact hknown
    · rw [hsame j hj]
      exact (hs.provider_known j).trans hmore
  · have hroom : s'.room r = s.room r := by simp only [State.room, hfile]
    rw [hroom]
    exact (hs.room_known r (hfile ▸ hr)).trans hmore
  · rcases hnew n hn with hold | hedit
    · obtain ⟨j, hj⟩ := hs.made n hold
      exact ⟨j, hall j hj⟩
    · exact ⟨c, by rwa [hself]⟩

theorem inv_edit {n : Nat} (hs : Inv docBusEnabled s)
    (h : step docBusEnabled docId byteLength s (.edit c n) = some s') : Inv docBusEnabled s' := by
  simp only [step, Option.ite_none_left_eq_some, Option.some.injEq] at h
  obtain ⟨-, rfl⟩ := h
  set t : State κ := { s.setProvider c
    { s.provider c with ydoc := insert (.edit n) (s.provider c).ydoc } with
    made := insert n s.made } with ht
  have hself : t.provider c =
      { s.provider c with ydoc := insert (.edit n) (s.provider c).ydoc } :=
    Function.update_self _ _ _
  have hsocket : ∀ j, (t.provider j).socket = (s.provider j).socket :=
    socket_setYdoc s.provider c _
  have hgrown : ∀ j, (s.provider j).ydoc ⊆ (t.provider j).ydoc :=
    ydoc_subset_setYdoc (Finset.subset_insert _ _)
  have hknown : insert (.edit n) (s.provider c).ydoc ⊆ t.known := by
    apply Finset.insert_subset
    · exact Finset.mem_union_left _ (Finset.mem_image_of_mem _ (Finset.mem_insert_self _ _))
    · refine (hs.provider_known c).trans (Finset.union_subset_union_left ?_)
      exact Finset.image_subset_image (Finset.subset_insert _ _)
  have hnew : ∀ m ∈ t.made, m ∈ s.made ∨ .edit m ∈ insert (.edit n) (s.provider c).ydoc := by
    intro m hm
    rcases Finset.mem_insert.mp hm with rfl | hold
    · exact Or.inr (Finset.mem_insert_self _ _)
    · exact Or.inl hold
  cases hc : (s.provider c).socket with
  | none =>
      have hnone : (t.provider c).socket = none := (hsocket c).trans hc
      rw [Provider.handleDocUpdate, Provider.send_of_none hnone]
      exact inv_provider hs rfl rfl (Finset.subset_insert _ _) hknown (Finset.subset_insert _ _)
        hnew (fun _ _ => rfl) fun k hk => by simp [hc] at hk
  | some k =>
      have hsome : (t.provider c).socket = some k := (hsocket c).trans hc
      rw [Provider.handleDocUpdate, Provider.send_of_some hsome]
      refine inv_provider (c := c) hs rfl rfl (Finset.subset_insert _ _) hknown
        (Finset.subset_insert _ _) hnew (fun j hj => ?_) fun j hj => ?_
      · have hne : j ≠ k := fun heq => hj (heq ▸ hc)
        exact Function.update_of_ne hne _ _
      · obtain rfl : k = j := Option.some.inj (hc.symm.trans hj)
        have hown := (hs.socket k).owned c hc
        simp only [State.setSocket, Function.update_self]
        refine (hs.socket k).typed hsocket hgrown (Socket.sendUp_owner _ _)
          (Socket.sendUp_client _ _) (Socket.sendUp_server _ _) (Socket.sendUp_down _ _)
          (by simp [hown]) (fun m hm => ?_)
          (fun m hm => (Socket.mem_sendUp _ _).mpr (Or.inl hm)) fun j hj hopened u hu => ?_
        · refine ((Socket.mem_sendUp _ _).mp hm).imp_right ?_
          rintro ⟨-, rfl⟩
          refine ⟨c, hown, ?_⟩
          rw [hself]
          exact Finset.singleton_subset_iff.mpr (Finset.mem_insert_self _ _)
        · obtain rfl := (hs.socket k).eq_of_listens hc hj
          rw [hself] at hu
          rcases Finset.mem_insert.mp hu with rfl | hold
          · exact Or.inr ⟨_, (Socket.mem_sendUp _ _).mpr (Or.inr ⟨hopened, rfl⟩),
              Finset.mem_singleton_self _⟩
          · exact Or.inl hold

theorem inv_deliverDown {message : SyncMessage} {down : List SyncMessage}
    (hs : Inv docBusEnabled s) (hlistener : s.listener k = some c)
    (hdown : (s.socket k).down = message :: down) (hopened : (s.socket k).client = .opened) :
    Inv docBusEnabled (Provider.handleMessage (s.setSocket k { s.socket k with down }) c message)
    := by
  obtain ⟨hown, hc⟩ := of_listener hlistener
  have hsocket := hs.socket k
  set t : State κ := (s.setSocket k { s.socket k with down }).setProvider c
    { s.provider c with ydoc := (s.provider c).ydoc ∪ message.applied } with ht
  have hsockets : ∀ j, (t.provider j).socket = (s.provider j).socket :=
    socket_setYdoc s.provider c _
  have hgrown : ∀ j, (s.provider j).ydoc ⊆ (t.provider j).ydoc :=
    ydoc_subset_setYdoc Finset.subset_union_left
  have hydoc : (t.provider c).ydoc = (s.provider c).ydoc ∪ message.applied := by
    simp [ht, State.setProvider]
  have hknown : (s.provider c).ydoc ∪ message.applied ⊆ t.known := by
    obtain ⟨r, hr, hcontent⟩ := hsocket.sentDown message (hdown ▸ List.mem_cons_self)
    refine Finset.union_subset (hs.provider_known c) ?_
    exact message.applied_subset.trans (hcontent.trans (hs.room_known r hr))
  -- whatever is replied goes out on the same socket
  have hreceived : ∀ {s' : State κ}, s'.provider = t.provider → s'.file = s.file →
      s'.made = s.made → (∀ j, j ≠ k → s'.socket j = s.socket j) →
      SocketInv t.provider s.file k (s'.socket k) → Inv docBusEnabled s' := by
    intro s' hprovider hfile hmade hother hnew
    have hsame : s'.known = t.known := by simp only [State.known, hfile, hmade, ht]; rfl
    refine inv_provider (c := c) hs hprovider hfile Finset.subset_union_left (hsame ▸ hknown)
      hmade.ge (fun n hn => Or.inl (hmade ▸ hn)) (fun j hj => hother j ?_) fun j hj => ?_
    · rintro rfl
      exact hj hc
    · obtain rfl : k = j := Option.some.inj (hc.symm.trans hj)
      rw [hprovider]
      exact hnew
  cases message with
  | step1 stateVector =>
      have hsome : (t.provider c).socket = some k := (hsockets c).trans hc
      have heq : Provider.handleMessage (s.setSocket k { s.socket k with down }) c
          (.step1 stateVector) =
          Provider.send t c (.step2 ((s.provider c).ydoc \ stateVector)) := rfl
      rw [heq, Provider.send_of_some hsome]
      have hsent : (t.socket k).sendUp (.step2 ((s.provider c).ydoc \ stateVector)) =
          Socket.sendUp { s.socket k with down } (.step2 ((s.provider c).ydoc \ stateVector)) := by
        simp [ht, State.setProvider, State.setSocket]
      rw [hsent]
      refine hreceived rfl rfl rfl (fun j hj => ?_) ?_
      · simp [ht, State.setProvider, State.setSocket, hj]
      · simp only [State.setSocket, Function.update_self]
        refine hsocket.received hs.site hc hsockets hgrown hydoc hopened (Socket.sendUp_owner _ _)
          (Socket.sendUp_client _ _) (Socket.sendUp_server _ _) (by simpa using hdown)
          (fun m hm => ?_) (fun m hm => (Socket.mem_sendUp _ _).mpr (Or.inl hm)) ?_
        · refine ((Socket.mem_sendUp _ _).mp hm).imp_right ?_
          rintro ⟨-, rfl⟩
          exact Finset.sdiff_subset
        · rintro _ ⟨⟩ u hu
          by_cases hold : u ∈ stateVector
          · exact Or.inl hold
          · exact Or.inr ⟨_, (Socket.mem_sendUp _ _).mpr (Or.inr ⟨hopened, rfl⟩),
              Finset.mem_sdiff.mpr ⟨hu, hold⟩⟩
  | step2 missing | update event =>
      refine hreceived rfl rfl rfl (fun j hj => Function.update_of_ne hj _ _) ?_
      have hsocket' : t.socket k = { s.socket k with down } := Function.update_self _ _ _
      change SocketInv t.provider s.file k (t.socket k)
      rw [hsocket']
      exact hsocket.received hs.site hc hsockets hgrown hydoc hopened rfl rfl rfl hdown
        (fun m hm => Or.inl hm) (fun m hm => hm) (by rintro _ ⟨⟩)

theorem inv_listen {listened : Option ConnId} (hs : Inv docBusEnabled s)
    (hnew : ∀ k, listened = some k → SocketInv
      (Function.update s.provider c { s.provider c with socket := listened }) s.file k
      (s.socket k)) :
    Inv docBusEnabled (s.setProvider c { s.provider c with socket := listened }) := by
  have hydoc : ∀ j, ((s.setProvider c { s.provider c with socket := listened }).provider j).ydoc =
      (s.provider j).ydoc := by
    intro j
    by_cases hj : j = c
    · simp [State.setProvider, hj]
    · simp [State.setProvider, hj]
  refine { hs with
    socket := fun k => ?_
    provider_known := fun j => (hydoc j).symm ▸ hs.provider_known j
    made := fun n hn => (hs.made n hn).imp fun j hj => (hydoc j).symm ▸ hj }
  by_cases hk : listened = some k
  · exact hnew k hk
  · refine (hs.socket k).setProvider (fun j => (hydoc j).ge) fun j hj => ?_
    have hne : j ≠ c := by
      rintro rfl
      simp [State.setProvider, hk] at hj
    simp [State.setProvider, hne]

theorem inv_detachSocket (hs : Inv docBusEnabled s) :
    Inv docBusEnabled (Provider.detachSocket s c) := by
  unfold Provider.detachSocket
  cases hc : (s.provider c).socket with
  | none => exact hs
  | some k =>
      have hne : (s.socket k).owner ≠ none := by simp [(hs.socket k).owned c hc]
      have hdropped : Inv docBusEnabled (s.setSocket k (s.socket k).drop) :=
        inv_setSocket hs ((hs.socket k).drop hne)
      exact inv_listen hdropped fun k hk => by cases hk

theorem owner_detachSocket (s : State κ) (c : κ) (j : ConnId) :
    ((Provider.detachSocket s c).socket j).owner = (s.socket j).owner := by
  unfold Provider.detachSocket
  split
  · rfl
  · next k hc =>
      by_cases hj : j = k
      · simp [State.setProvider, State.setSocket, hj, Socket.drop]
      · simp [State.setProvider, State.setSocket, hj]

theorem inv_connect (hs : Inv docBusEnabled s) (hk : (s.socket k).owner = none) :
    Inv docBusEnabled (Provider.connect s c k) := by
  have hsocket := hs.socket k
  have hunused := hsocket.unused hk
  have hidle : s.file.site.doc.conn k = .idle :=
    (hsocket.unaccepted (by rw [hunused, Socket.unused])).1
  have hnobody : ∀ j, (s.provider j).socket ≠ some k := fun j hj => by
    simp [hsocket.owned j hj] at hk
  have hmade : Inv docBusEnabled (s.setSocket k { Socket.unused κ with owner := some c }) :=
    inv_setSocket hs (socketInv_connect (fun j hj => absurd hj (hnobody j)) hidle)
  refine inv_listen hmade fun j hj => ?_
  cases hj
  have hnew : (s.setSocket k { Socket.unused κ with owner := some c }).socket k =
      { Socket.unused κ with owner := some c } := Function.update_self _ _ _
  rw [hnew]
  refine socketInv_connect (fun j hj => ?_) hidle
  by_contra hne
  rw [Function.update_of_ne hne] at hj
  exact hnobody j hj

theorem inv_step {e : Event κ} (hs : Inv docBusEnabled s)
    (h : step docBusEnabled docId byteLength s e = some s') : Inv docBusEnabled s' := by
  cases e with
  | edit c n => exact inv_edit hs h
  | connect c k =>
      simp only [step, Option.ite_none_right_eq_some, Option.some.injEq] at h
      obtain ⟨hk, rfl⟩ := h
      exact inv_connect (inv_detachSocket hs) ((owner_detachSocket s c k).trans hk)
  | accept k =>
      simp only [step, Option.ite_none_right_eq_some, Option.some.injEq] at h
      obtain ⟨⟨hne, hserver⟩, rfl⟩ := h
      obtain ⟨hidle, hclient⟩ := (hs.socket k).unaccepted hserver
      refine inv_setSocket hs { hs.socket k with
        unused := fun hnone => absurd hnone hne
        unaccepted := fun h => by cases h
        caught := fun _ _ hopened => absurd hopened hclient
        heard := fun _ r _ _ _ hr => absurd (hidle.symm.trans hr) (by simp) }
  | opens k =>
      cases hlistener : s.listener k <;> simp only [step, hlistener, reduceCtorEq,
        Option.ite_none_right_eq_some, Option.some.injEq] at h
      obtain ⟨⟨hclient, hserver⟩, rfl⟩ := h
      exact inv_opens hs hlistener hclient hserver
  | authorize k =>
      simp only [step, Option.ite_none_right_eq_some] at h
      exact inv_authorize hs h.1 h.2
  | enter k =>
      cases hk : s.conn k <;> simp only [step, hk, reduceCtorEq, Option.map_eq_some_iff] at h
      obtain ⟨t, ht, rfl⟩ := h
      exact inv_enter hs hk ht
  | deliverUp k =>
      cases hup : (s.socket k).up with
      | nil => simp [step, hup] at h
      | cons message up => exact inv_deliverUp hs hup h
  | deliverDown k =>
      cases hlistener : s.listener k <;> cases hdown : (s.socket k).down <;>
        simp only [step, hlistener, hdown, reduceCtorEq, Option.ite_none_right_eq_some,
          Option.some.injEq] at h
      obtain ⟨hopened, rfl⟩ := h
      exact inv_deliverDown hs hlistener hdown hopened
  | reject k =>
      simp only [step, Option.ite_none_right_eq_some, Option.some.injEq] at h
      obtain ⟨hserver, rfl⟩ := h
      exact inv_reject hs hserver
  | clientClose k =>
      simp only [step, Option.ite_none_right_eq_some, Option.some.injEq] at h
      obtain ⟨⟨-, hne⟩, rfl⟩ := h
      exact inv_setSocket hs ((hs.socket k).drop hne)
  | serverClose k =>
      refine inv_serverClose hs (fun hserver => ?_) h
      simp [step, hserver] at h
  | site e =>
      simp only [step, Option.ite_none_left_eq_some, Option.map_eq_some_iff] at h
      obtain ⟨hnot, f, hf, rfl⟩ := h
      obtain ⟨hdriven, hforward⟩ := not_or.mp hnot
      exact inv_site hs (Bool.eq_false_iff.mpr hdriven) (Bool.eq_false_iff.mpr hforward) hf

end Events

/-! ## Convergence -/

/-- What the text of the file became in the document. -/
def State.seed (s : State κ) : Finset Update :=
  match s.file.site.seed with
  | some (r, content) => seedOf r content
  | none => ∅

/-- Every client's socket is open at both ends, and what was sent on it has been
handled. -/
def Settled (s : State κ) : Prop :=
  ∀ c, ∃ k, (s.provider c).socket = some k ∧ (s.socket k).client = .opened ∧
    (s.socket k).server = .opened ∧ (s.socket k).up = [] ∧ (s.socket k).down = [] ∧
    (s.socket k).queued = []

/-- Every client has what the registered room has, and that is every edit that
was made, and the seed. -/
def Converged (s : State κ) : Prop :=
  ∀ c, ∃ r, s.file.site.doc.entry = some r ∧ s.file.site.doc.creation r = .ready ∧
    (s.provider c).ydoc = s.room r ∧ s.room r = s.made.image Update.edit ∪ s.seed

theorem seed_eq {docBusEnabled : Bool} {s : State κ} {r : RoomId} (hs : Inv docBusEnabled s)
    (hr : s.file.site.doc.creation r = .ready) :
    seedsIn (contents s.file.site.store.tables) = s.seed := by
  have hseeded := hs.site.seeded (stored_of_ready hs.site hr)
  cases hseed : s.file.site.seed with
  | none =>
      rw [hseed] at hseeded
      exact absurd rfl hseeded.1
  | some p =>
      rw [hseed] at hseeded
      simpa only [State.seed, hseed] using hseeded.2

/-- A settled client is in the registered room, and has what the room has. -/
theorem ydoc_of_settled {docBusEnabled : Bool} {s : State κ} (hs : Inv docBusEnabled s)
    (hsettled : Settled s) (c : κ) : ∃ r, s.file.site.doc.entry = some r ∧
      s.file.site.doc.creation r = .ready ∧ (s.provider c).ydoc = s.room r := by
  obtain ⟨k, hc, hclient, hserver, hup, hdown, hqueued⟩ := hsettled c
  have hunhandled : (s.socket k).unhandled = [] := by rw [Socket.unhandled, hqueued, hup]; rfl
  have hsocket := hs.socket k
  have hcaught := hsocket.caught c hc hclient hserver
  simp only [hunhandled, hdown, Asks, Brings, List.not_mem_nil, false_and, exists_false, false_or,
    or_false] at hcaught
  obtain ⟨r, hr, hroom⟩ := hcaught
  have hheard := hsocket.heard c r hc (by simp [hclient]) hserver hr
  simp only [hunhandled, hdown, Asks, Brings, List.not_mem_nil, false_and, exists_false, false_or,
    or_false] at hheard
  obtain ⟨hentry, hready⟩ := entry_of_holds hs.site.rooms (Or.inr (Or.inl hr))
  exact ⟨r, hentry, hready, Finset.Subset.antisymm hheard.2 hroom⟩

/-- In every run of any number of clients: once every socket is open and no
frame is in flight, the clients and the room have converged. -/
theorem converged [DecidableEq κ] {docBusEnabled : Bool} {docId : String}
    {byteLength : Finset Update → Nat} {clock : Int} {events : List (Event κ)} {s : State κ}
    (h : run (step docBusEnabled docId byteLength) (State.init κ clock) events = some s)
    (hsettled : Settled s) : Converged s := by
  have hs : Inv docBusEnabled s :=
    run_invariant (fun _ _ _ => inv_step) (inv_init docBusEnabled clock) h
  intro c
  obtain ⟨r, hentry, hready, hc⟩ := ydoc_of_settled hs hsettled c
  refine ⟨r, hentry, hready, hc, Finset.Subset.antisymm ?_ (Finset.union_subset ?_ ?_)⟩
  · calc s.room r ⊆ s.known := hs.room_known r hready
      _ = s.made.image Update.edit ∪ s.seed := by rw [State.known, seed_eq hs hready]
  · intro u hu
    obtain ⟨n, hn, rfl⟩ := Finset.mem_image.mp hu
    obtain ⟨j, hj⟩ := hs.made n hn
    obtain ⟨i, hentry', -, hydoc⟩ := ydoc_of_settled hs hsettled j
    obtain rfl : i = r := Option.some.inj (hentry'.symm.trans hentry)
    exact hydoc ▸ hj
  · rw [← seed_eq hs hready]
    exact seedsIn_subset_ydoc hs.site hready

/-- A client edits, loses its socket and edits on, and its room is evicted.  The
document is reopened for a client that has edited offline, and the first one
comes back. -/
def reconnected : List (Event Bool) :=
  [.connect true 0, .accept 0, .opens 0, .edit true 7, .authorize 0, .deliverUp 0,
    .site (.lookUp 0 (some "a")), .site (.readSnapshot 0), .site (.readTail 0),
    .site (.writeSeed 0), .site (.control (.resumeJoin 0)), .enter 0, .edit false 8,
    .deliverDown 0, .deliverDown 0, .deliverUp 0, .clientClose 0, .edit true 9, .serverClose 0,
    .site (.control (.resumeLeave 0)), .site (.write 0 .start), .site (.write 0 (.append 1)),
    .site (.write 0 (.resume {.seed 0, .edit 7})), .site (.write 0 (.materialize true)),
    .site (.write 0 .count), .site (.control (.writeSettles 0)),
    .site (.control (.finishLeave 0)),
    .connect false 1, .accept 1, .opens 1, .authorize 1, .deliverUp 1,
    .site (.lookUp 1 (some "a")), .site (.readSnapshot 1), .site (.readTail 1),
    .site (.control (.resumeJoin 1)), .enter 1, .deliverDown 1, .deliverDown 1, .deliverUp 1,
    .connect true 2, .accept 2, .opens 2, .authorize 2, .site (.control (.resumeJoin 2)),
    .enter 2, .deliverUp 2, .deliverDown 2, .deliverDown 2, .deliverUp 2, .deliverDown 1]

theorem converged_reconnected :
    ∃ s, run (step false "p:f" fun _ => 1) (State.init Bool 0) reconnected = some s ∧
      Converged s ∧ s.made = {7, 8, 9} := by
  have hrun : (run (step false "p:f" fun _ => 1) (State.init Bool 0) reconnected).map (fun s =>
      ((s.provider true).socket, (s.provider false).socket, s.socket 2, s.socket 1, s.made)) =
      some (some 2, some 1, ⟨some true, .opened, .opened, [], [], []⟩,
        ⟨some false, .opened, .opened, [], [], []⟩, {9, 8, 7}) := rfl
  obtain ⟨s, hs, hfields⟩ := Option.map_eq_some_iff.mp hrun
  simp only [Prod.mk.injEq] at hfields
  obtain ⟨htrue, hfalse, hsecond, hfirst, hmade⟩ := hfields
  refine ⟨s, hs, converged hs fun c => ?_, hmade.trans (by decide)⟩
  cases c with
  | true => exact ⟨2, htrue, by simp [hsecond]⟩
  | false => exact ⟨1, hfalse, by simp [hfirst]⟩

end CollabIDE.Collab.Providers
