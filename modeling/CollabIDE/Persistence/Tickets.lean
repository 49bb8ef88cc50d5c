import CollabIDE.Persistence.Turns
/-!
# What the promise of a flush covers

A flush resolves with the chain as it was then.  An update is owed by the flush
with number `ticket` while it is in a batch of the chain up to that link, or in
the link under way; it is written and shown once the link has settled.  So is
one that is stored, since the text written after a batch is that of the whole
document.
-/

namespace CollabIDE.Persistence.Tickets

open CollabIDE.Persistence.DocStore CollabIDE.Persistence.Buffer CollabIDE.Persistence.Turns

variable {υ : Type} {stored stored' : Finset υ} {b b' : DocPersistence υ} {ticket : Nat} {u : υ}

/-- In the row being appended, or in the text that is written after it. -/
def InFlight (stored : Finset υ) (b : DocPersistence υ) (u : υ) : Prop :=
  (∃ merged, b.writing = .appending merged ∧ (u ∈ stored ∨ u ∈ merged)) ∨
    u ∈ stored ∧ (b.writing = .appended ∨ ∃ ydoc, b.writing = .materializing ydoc ∧ u ∈ ydoc)

/-- The flush `ticket`, or an earlier one, has not written it, or the text with
it. -/
def Owed (stored : Finset υ) (b : DocPersistence υ) (ticket : Nat) (u : υ) : Prop :=
  (∃ batch ∈ b.chain.take (ticket - begun b), ∃ chunk ∈ batch, u ∈ stored ∨ u ∈ chunk.update) ∨
    begun b ≤ ticket ∧ InFlight stored b u

/-- Stored and shown once what is observed has been written. -/
def Awaits (stored : Finset υ) (b : DocPersistence υ) (u : υ) : Prop :=
  (∃ chunk ∈ b.buffered, u ∈ stored ∨ u ∈ chunk.update) ∨ Owed stored b b.requested u

/-- A batch waits to be appended, or the text to be written after one. -/
def ToWrite (b : DocPersistence υ) : Prop :=
  b.buffered ≠ [] ∨ (∃ batch ∈ b.chain, batch ≠ []) ∨
    match b.writing with
    | .appending _ | .appended | .materializing _ => True
    | .idle | .counting | .reading | .compacting .. => False

theorem InFlight.busy (h : InFlight stored b u) : b.writing ≠ .idle := by
  rcases h with ⟨merged, h, -⟩ | ⟨-, h | ⟨ydoc, h, -⟩⟩ <;> simp [h]

theorem InFlight.mono (hsub : stored ⊆ stored') (h : InFlight stored b u) :
    InFlight stored' b u := by
  rcases h with ⟨merged, hmerged, hu⟩ | ⟨hu, hwriting⟩
  · exact Or.inl ⟨merged, hmerged, hu.imp_left fun hu => hsub hu⟩
  · exact Or.inr ⟨hsub hu, hwriting⟩

theorem Owed.mono (hsub : stored ⊆ stored') (h : Owed stored b ticket u) :
    Owed stored' b ticket u := by
  rcases h with ⟨batch, hbatch, chunk, hchunk, hu⟩ | ⟨hle, hflight⟩
  · exact Or.inl ⟨batch, hbatch, chunk, hchunk, hu.imp_left fun hu => hsub hu⟩
  · exact Or.inr ⟨hle, hflight.mono hsub⟩

theorem Awaits.mono (hsub : stored ⊆ stored') (h : Awaits stored b u) : Awaits stored' b u := by
  rcases h with ⟨chunk, hchunk, hu⟩ | howed
  · exact Or.inl ⟨chunk, hchunk, hu.imp_left fun hu => hsub hu⟩
  · exact Or.inr (howed.mono hsub)

theorem Owed.settled_lt (h : Owed stored b ticket u) : b.settled < ticket := by
  rcases h with ⟨batch, hbatch, -⟩ | ⟨hle, hflight⟩
  · have hpos : 0 < ticket - begun b := by
      by_contra hzero
      rw [Nat.eq_zero_of_not_pos hzero, List.take_zero] at hbatch
      exact List.not_mem_nil hbatch
    have hle := settled_le_begun b
    omega
  · have hbusy := begun_of_busy hflight.busy
    omega

theorem not_awaits_of_quiet (hb : Quiet b) : ¬ Awaits stored b u := by
  rintro (⟨chunk, hchunk, -⟩ | ⟨batch, hbatch, chunk, hchunk, -⟩ | ⟨-, hflight⟩)
  · simp [hb.buffered_eq] at hchunk
  · simp [hb.chain_empty batch (List.mem_of_mem_take hbatch)] at hchunk
  · exact hflight.busy hb.writing_eq

theorem take_requested (hb : Counted b) : b.chain.take (b.requested - begun b) = b.chain := by
  rw [hb, Nat.add_sub_cancel_left, List.take_length]

theorem begun_le_requested (hb : Counted b) : begun b ≤ b.requested := by
  rw [hb]
  exact Nat.le_add_right _ _

theorem awaits_of_unwritten (hb : Counted b) (h : Unwritten b u) : Awaits stored b u := by
  rcases h with ⟨chunk, hchunk, hu⟩ | ⟨batch, hbatch, chunk, hchunk, hu⟩ | ⟨merged, hmerged, hu⟩
  · exact Or.inl ⟨chunk, hchunk, Or.inr hu⟩
  · exact Or.inr (Or.inl ⟨batch, by rwa [take_requested hb], chunk, hchunk, Or.inr hu⟩)
  · exact Or.inr (Or.inr ⟨begun_le_requested hb, Or.inl ⟨merged, hmerged, Or.inr hu⟩⟩)

theorem awaits_of_toWrite (hb : Counted b) (h : ToWrite b) (hu : u ∈ stored)
    (hwriting : ∀ ydoc, b.writing = .materializing ydoc → u ∈ ydoc) : Awaits stored b u := by
  have hflight : InFlight stored b u → Awaits stored b u := fun hflight =>
    Or.inr (Or.inr ⟨begun_le_requested hb, hflight⟩)
  rcases h with hbuffered | ⟨batch, hbatch, hne⟩ | hbusy
  · obtain ⟨chunk, hchunk⟩ := List.exists_mem_of_ne_nil _ hbuffered
    exact Or.inl ⟨chunk, hchunk, Or.inl hu⟩
  · obtain ⟨chunk, hchunk⟩ := List.exists_mem_of_ne_nil _ hne
    exact Or.inr (Or.inl ⟨batch, by rwa [take_requested hb], chunk, hchunk, Or.inl hu⟩)
  · cases hw : b.writing <;> simp only [hw] at hbusy
    · exact hflight (Or.inl ⟨_, hw, Or.inl hu⟩)
    · exact hflight (Or.inr ⟨hu, Or.inl hw⟩)
    · exact hflight (Or.inr ⟨hu, Or.inr ⟨_, hw, hwriting _ hw⟩⟩)

/-! ## Calls of `flush` and `onUpdate` -/

/-- The chain grew at its end, and nothing else of it moved. -/
structure Pushed (b b' : DocPersistence υ) : Prop where
  chain : ∃ batches, b'.chain = b.chain ++ batches
  writing : b'.writing = b.writing
  settled : b'.settled = b.settled
  kept : ∀ chunk ∈ b.buffered, chunk ∈ b'.buffered ∨ ∃ batch ∈ b'.chain, chunk ∈ batch
  counted : Counted b → Counted b'

theorem Pushed.refl (b : DocPersistence υ) : Pushed b b :=
  ⟨⟨[], (List.append_nil _).symm⟩, rfl, rfl, fun _ h => Or.inl h, id⟩

theorem pushed_flush (b : DocPersistence υ) : Pushed b (flush b) where
  chain := ⟨[b.buffered], rfl⟩
  writing := rfl
  settled := rfl
  kept := fun _ h => Or.inr ⟨b.buffered, by simp [flush], h⟩
  counted := counted_flush

theorem pushed_detach (b : DocPersistence υ) : Pushed b (detach b) := by
  obtain ⟨timer, heq⟩ := detach_eq b
  rw [heq]
  exact ⟨⟨[], (List.append_nil _).symm⟩, rfl, rfl, fun _ h => Or.inl h, id⟩

theorem pushed_onUpdate (b : DocPersistence υ) (chunk : Chunk υ) : Pushed b (onUpdate b chunk) := by
  have hcounted := fun hb : Counted b => counted_onUpdate hb chunk
  unfold onUpdate at hcounted ⊢
  by_cases hfull : flushBytes ≤ b.bufferedBytes + chunk.byteLength
  · simp only [if_pos hfull] at hcounted ⊢
    exact ⟨⟨_, rfl⟩, rfl, rfl,
      fun c h => Or.inr ⟨_, List.mem_append_right _ List.mem_cons_self, List.mem_append_left _ h⟩,
      hcounted⟩
  · simp only [if_neg hfull] at hcounted ⊢
    exact ⟨⟨[], (List.append_nil _).symm⟩, rfl, rfl, fun c h => Or.inl (List.mem_append_left _ h),
      hcounted⟩

theorem Pushed.begun_eq (h : Pushed b b') : begun b' = begun b := by
  simp only [begun, h.writing, h.settled]

theorem Pushed.inFlight (h : Pushed b b') : InFlight stored b' u ↔ InFlight stored b u := by
  simp only [InFlight, h.writing]

theorem Pushed.owed (h : Pushed b b') (hu : Owed stored b ticket u) : Owed stored b' ticket u := by
  rcases hu with ⟨batch, hbatch, hchunk⟩ | hflight
  · obtain ⟨batches, hchain⟩ := h.chain
    refine Or.inl ⟨batch, ?_, hchunk⟩
    rw [hchain, h.begun_eq, List.take_append]
    exact List.mem_append_left _ hbatch
  · exact Or.inr (by rwa [h.begun_eq, h.inFlight])

theorem Pushed.awaits (h : Pushed b b') (hb : Counted b) (hu : Awaits stored b u) :
    Awaits stored b' u := by
  have hb' := h.counted hb
  rcases hu with ⟨chunk, hchunk, hu⟩ | ⟨batch, hbatch, hchunk⟩ | ⟨-, hflight⟩
  · rcases h.kept chunk hchunk with hbuffered | ⟨batch, hbatch, hmem⟩
    · exact Or.inl ⟨chunk, hbuffered, hu⟩
    · exact Or.inr (Or.inl ⟨batch, by rwa [take_requested hb'], chunk, hmem, hu⟩)
  · obtain ⟨batches, hchain⟩ := h.chain
    refine Or.inr (Or.inl ⟨batch, ?_, hchunk⟩)
    rw [take_requested hb', hchain]
    exact List.mem_append_left _ (List.mem_of_mem_take hbatch)
  · exact Or.inr (Or.inr ⟨begun_le_requested hb', h.inFlight.mpr hflight⟩)

theorem owed_flush (hb : Counted b) (hu : Awaits stored b u) :
    Owed stored (flush b) (flush b).requested u := by
  rcases (pushed_flush b).awaits hb hu with ⟨chunk, hchunk, -⟩ | howed
  · exact absurd hchunk List.not_mem_nil
  · exact howed

/-! ## The turns of `writeBatch` -/

/-- `File.content` after a turn, told by the document whose text it is. -/
def materialized (b : DocPersistence υ) (content : Finset υ) : WriteEvent υ → Finset υ
  | .materialize true =>
    match b.writing with
    | .materializing ydoc => ydoc
    | _ => content
  | _ => content

section Write

variable [DecidableEq υ] {docId : String} {s s' : Store υ} {e : WriteEvent υ} {content : Finset υ}

/-- An append and a materialization do what they were asked; a compaction may
fail. -/
def Writes : WriteEvent υ → Prop
  | .appendFails _ | .materialize false => False
  | _ => True

theorem inFlight_turn (hs : s.Sequenced) (hok : Writes e)
    (hresume : ∀ ydoc, e = .resume ydoc → u ∈ ydoc)
    (h : writeStep docId s b e = some (s', b')) (hu : InFlight (contents s.tables) b u) :
    InFlight (contents s'.tables) b' u ∨
      u ∈ contents s'.tables ∧ u ∈ materialized b content e := by
  cases wrote h with
  | skip hidle | start _ hidle => exact absurd hidle hu.busy
  | @append merged id hwriting hid =>
      rcases hu with ⟨m, hm, hu⟩ | ⟨-, happended | ⟨ydoc, hydoc, -⟩⟩
      · rw [hwriting, Writing.appending.injEq] at hm
        refine Or.inl (Or.inr ⟨?_, Or.inl rfl⟩)
        rw [contents_appendUpdate (hs.watermark_lt.trans_le hid), Finset.mem_union, hm]
        exact hu
      · exact absurd (hwriting.symm.trans happended) (by simp)
      · exact absurd (hwriting.symm.trans hydoc) (by simp)
  | appendFails => exact hok.elim
  | @resume ydoc hwriting =>
      rcases hu with ⟨m, hm, -⟩ | ⟨hstored, -⟩
      · exact absurd (hwriting.symm.trans hm) (by simp)
      · exact Or.inl (Or.inr ⟨hstored, Or.inr ⟨ydoc, rfl, hresume ydoc rfl⟩⟩)
  | @materialize ydoc succeeds hwriting =>
      rcases hu with ⟨m, hm, -⟩ | ⟨hstored, happended | ⟨shown, hshown, hu⟩⟩
      · exact absurd (hwriting.symm.trans hm) (by simp)
      · exact absurd (hwriting.symm.trans happended) (by simp)
      · cases succeeds with
        | false => exact hok.elim
        | true =>
            rw [hwriting, Writing.materializing.injEq] at hshown
            refine Or.inr ⟨hstored, ?_⟩
            simpa only [materialized, hwriting, hshown] using hu
  | compactionFails hwriting hbusy =>
      -- a compaction starts past the materialization
      cases hw : b.writing <;> simp [writeStep, hw] at h <;>
        simp [InFlight, hw] at hu
  | countFew hwriting | countMany hwriting | readNone hwriting | readSome hwriting
  | compact hwriting => simp [InFlight, hwriting] at hu

/-- A turn pays what a flush owes, or still owes it. -/
theorem owed_turn (hs : s.Sequenced) (hok : Writes e)
    (hstored : contents s.tables ⊆ contents s'.tables)
    (hresume : ∀ ydoc, e = .resume ydoc → u ∈ ydoc)
    (h : writeStep docId s b e = some (s', b')) (hu : Owed (contents s.tables) b ticket u) :
    Owed (contents s'.tables) b' ticket u ∨
      u ∈ contents s'.tables ∧ u ∈ materialized b content e := by
  have hmono : ∀ batch : List (Chunk υ),
      (∃ chunk ∈ batch, u ∈ contents s.tables ∨ u ∈ chunk.update) →
        ∃ chunk ∈ batch, u ∈ contents s'.tables ∨ u ∈ chunk.update :=
    fun _ ⟨chunk, hchunk, hu⟩ => ⟨chunk, hchunk, hu.imp_left fun hu => hstored hu⟩
  rcases begun_turn h with ⟨batch, hchain, hidle, hbegun⟩ | ⟨hchain, hbusy, hbegun⟩
  · rcases hu with ⟨x, hx, hchunk⟩ | ⟨-, hflight⟩
    · obtain ⟨n, hn⟩ : ∃ n, ticket - begun b = n + 1 := by
        refine Nat.exists_eq_succ_of_ne_zero fun hzero => ?_
        rw [hzero, List.take_zero] at hx
        exact List.not_mem_nil hx
      rw [hn, hchain, List.take_succ_cons] at hx
      rcases List.mem_cons.mp hx with rfl | hrest
      · -- the batch whose link begins now
        refine Or.inl (Or.inr ⟨by omega, Or.inl ?_⟩)
        cases wrote h with
        | skip _ hempty =>
            obtain ⟨chunk, hmem, -⟩ := hchunk
            rw [hchain, List.cons.injEq] at hempty
            exact absurd (hempty.1 ▸ hmem) List.not_mem_nil
        | start _ _ hstart =>
            rw [hchain, List.cons.injEq] at hstart
            obtain ⟨chunk, hmem, hu⟩ := hchunk
            exact ⟨_, rfl, hu.imp_right fun hu =>
              mem_mergeUpdates.mpr ⟨chunk, hstart.1 ▸ hmem, hu⟩⟩
        | compactionFails _ hbusy => exact absurd hidle hbusy
        | append hwriting => exact absurd (hidle.symm.trans hwriting) (by simp)
        | _ hwriting => exact absurd (hidle.symm.trans hwriting) (by simp)
      · exact Or.inl (Or.inl ⟨x, by rwa [show ticket - begun b' = n by omega], hmono x hchunk⟩)
    · exact absurd hidle hflight.busy
  · rcases hu with ⟨x, hx, hchunk⟩ | ⟨hle, hflight⟩
    · exact Or.inl (Or.inl ⟨x, by rwa [hchain, hbegun], hmono x hchunk⟩)
    · exact (inFlight_turn hs hok hresume h hflight).imp_left
        fun hflight => Or.inr ⟨hbegun ▸ hle, hflight⟩

theorem awaits_turn (hs : s.Sequenced) (hok : Writes e)
    (hstored : contents s.tables ⊆ contents s'.tables)
    (hresume : ∀ ydoc, e = .resume ydoc → u ∈ ydoc)
    (h : writeStep docId s b e = some (s', b')) (hu : Awaits (contents s.tables) b u) :
    Awaits (contents s'.tables) b' u ∨
      u ∈ contents s'.tables ∧ u ∈ materialized b content e := by
  have happend : ∀ mergedBytes, e ≠ .appendFails mergedBytes := by
    rintro mergedBytes rfl
    exact hok
  rcases hu with ⟨chunk, hchunk, hu⟩ | howed
  · exact Or.inl (Or.inl ⟨chunk, by rwa [buffered_turn happend h],
      hu.imp_left fun hu => hstored hu⟩)
  · refine (owed_turn hs hok hstored hresume h howed).imp_left fun howed => Or.inr ?_
    rwa [requested_turn h]

end Write

end CollabIDE.Persistence.Tickets
