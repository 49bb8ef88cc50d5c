import CollabIDE.Persistence.Buffer
/-!
# The turns of the write buffer, failures included

`writeStep` inverted once, whatever the store answers, and what follows from it
for the store, the chain and the batch in flight.
-/

namespace CollabIDE.Persistence.Turns

open CollabIDE.Lib CollabIDE.Persistence.DocStore CollabIDE.Persistence.Compactor
open CollabIDE.Persistence.Buffer CollabIDE.Persistence.Coverage

variable {υ : Type} [DecidableEq υ] {docId : String} {s s' : Store υ} {b b' : DocPersistence υ}
  {e : WriteEvent υ}

/-- The forms of a turn. -/
inductive Wrote (docId : String) (s : Store υ) (b : DocPersistence υ) :
    WriteEvent υ → Store υ → DocPersistence υ → Prop
  | skip {rest : List (List (Chunk υ))} (hidle : b.writing = .idle)
    (hchain : b.chain = [] :: rest) :
    Wrote docId s b .start s { b with chain := rest }.settle
  | start {batch : List (Chunk υ)} {rest : List (List (Chunk υ))} (hne : batch ≠ [])
      (hidle : b.writing = .idle) (hchain : b.chain = batch :: rest) :
    Wrote docId s b .start s { b with chain := rest, writing := .appending (mergeUpdates batch) }
  | append {merged : Finset υ} {id : Nat} (hwriting : b.writing = .appending merged)
      (hid : s.nextId ≤ id) :
    Wrote docId s b (.append id)
      { s with tables := appendUpdate s.tables ⟨id, merged, s.clock⟩, nextId := id + 1 }
      { b with writing := .appended }
  | appendFails {merged : Finset υ} {mergedBytes : Nat} (hwriting : b.writing = .appending merged) :
    Wrote docId s b (.appendFails mergedBytes) s
      { b with
        buffered := ⟨merged, mergedBytes⟩ :: b.buffered
        bufferedBytes := b.bufferedBytes + mergedBytes }.settle
  | resume {ydoc : Finset υ} (hwriting : b.writing = .appended) :
    Wrote docId s b (.resume ydoc) s { b with writing := .materializing ydoc }
  | materialize {ydoc : Finset υ} {succeeds : Bool} (hwriting : b.writing = .materializing ydoc) :
    Wrote docId s b (.materialize succeeds) s { b with writing := .counting }
  | countFew (hwriting : b.writing = .counting) : Wrote docId s b .count s b.settle
  | countMany (hwriting : b.writing = .counting) :
    Wrote docId s b .count s { b with writing := .reading }
  | readNone {cutoff : Int} (hwriting : b.writing = .reading) :
    Wrote docId s b (.read cutoff) s b.settle
  | readSome {cutoff : Int} {through : Nat} (hwriting : b.writing = .reading)
      (hthrough : (readForCompaction s.tables cutoff).throughUpdateId = some through) :
    Wrote docId s b (.read cutoff) s
      { b with writing := .compacting (readForCompaction s.tables cutoff) through }
  | compact {candidate : CompactionCandidate υ} {through : Nat}
      {outage : Option (CompactStatement × String)}
      (hwriting : b.writing = .compacting candidate through) :
    Wrote docId s b (.compact outage)
      { s with tables := (DocStore.compact docId outage s.tables (foldCandidate candidate)
        through candidate.expectedUpdateId).1 } b.settle
  | compactionFails (hwriting : ∀ merged, b.writing ≠ .appending merged)
      (hbusy : b.writing ≠ .idle) : Wrote docId s b .compactionFails s b.settle

theorem wrote (h : writeStep docId s b e = some (s', b')) : Wrote docId s b e s' b' := by
  cases e with
  | start =>
      cases hwriting : b.writing <;> simp only [writeStep, hwriting, reduceCtorEq] at h
      rcases hchain : b.chain with - | ⟨- | ⟨chunk, batch⟩, rest⟩ <;>
        simp only [hchain, Option.some.injEq, Prod.mk.injEq, reduceCtorEq] at h
      · obtain ⟨rfl, rfl⟩ := h
        exact .skip hwriting hchain
      · obtain ⟨rfl, rfl⟩ := h
        exact .start (List.cons_ne_nil _ _) hwriting hchain
  | append id =>
      cases hwriting : b.writing <;> simp only [writeStep, hwriting, reduceCtorEq] at h
      simp only [Option.ite_none_right_eq_some, Option.some.injEq, Prod.mk.injEq] at h
      obtain ⟨hid, rfl, rfl⟩ := h
      exact .append hwriting hid
  | appendFails mergedBytes =>
      cases hwriting : b.writing <;> simp only [writeStep, hwriting, reduceCtorEq] at h
      obtain ⟨rfl, rfl⟩ := Prod.mk.inj (Option.some.inj h)
      exact .appendFails hwriting
  | resume ydoc =>
      cases hwriting : b.writing <;> simp only [writeStep, hwriting, reduceCtorEq] at h
      obtain ⟨rfl, rfl⟩ := Prod.mk.inj (Option.some.inj h)
      exact .resume hwriting
  | materialize succeeds =>
      cases hwriting : b.writing <;> simp only [writeStep, hwriting, reduceCtorEq] at h
      obtain ⟨rfl, rfl⟩ := Prod.mk.inj (Option.some.inj h)
      exact .materialize hwriting
  | count =>
      cases hwriting : b.writing <;> simp only [writeStep, hwriting, reduceCtorEq] at h
      split_ifs at h
      · obtain ⟨rfl, rfl⟩ := Prod.mk.inj (Option.some.inj h)
        exact .countFew hwriting
      · obtain ⟨rfl, rfl⟩ := Prod.mk.inj (Option.some.inj h)
        exact .countMany hwriting
  | read cutoff =>
      cases hwriting : b.writing <;> simp only [writeStep, hwriting, reduceCtorEq] at h
      cases hthrough : (readForCompaction s.tables cutoff).throughUpdateId with
      | none =>
          simp only [hthrough, Option.some.injEq, Prod.mk.injEq] at h
          obtain ⟨rfl, rfl⟩ := h
          exact .readNone hwriting
      | some through =>
          simp only [hthrough, Option.some.injEq, Prod.mk.injEq] at h
          obtain ⟨rfl, rfl⟩ := h
          exact .readSome hwriting hthrough
  | compact outage =>
      cases hwriting : b.writing <;> simp only [writeStep, hwriting, reduceCtorEq] at h
      obtain ⟨rfl, rfl⟩ := Prod.mk.inj (Option.some.inj h)
      exact .compact hwriting
  | compactionFails =>
      cases hwriting : b.writing <;> simp only [writeStep, hwriting, reduceCtorEq] at h <;>
        obtain ⟨rfl, rfl⟩ := Prod.mk.inj (Option.some.inj h) <;>
          exact .compactionFails (by simp [hwriting]) (by simp [hwriting])

/-- The log was folded into the snapshot, or left as it was. -/
structure Folded (t t' : Tables υ) : Prop where
  contents_eq : contents t' = contents t
  watermark_le : updateIdOrZero t.docSnapshot ≤ updateIdOrZero t'.docSnapshot
  row : ∀ row ∈ t.docUpdate, row ∈ t'.docUpdate ∨ row.id ≤ updateIdOrZero t'.docSnapshot

theorem Folded.refl (t : Tables υ) : Folded t t := ⟨rfl, le_rfl, fun _ h => Or.inl h⟩

theorem compact_current (docId : String) {candidate : CompactionCandidate υ} {through : Nat}
    (outage : Option (CompactStatement × String)) (hb : Current s b)
    (hwriting : b.writing = .compacting candidate through) :
    let tables := (DocStore.compact docId outage s.tables (foldCandidate candidate) through
      candidate.expectedUpdateId).1
    tables = s.tables ∨ ∃ cutoff,
      (readForCompaction s.tables cutoff).throughUpdateId = some through ∧
      AgesSplit cutoff s.tables ∧
      tables = compacted s.tables (foldCandidate (readForCompaction s.tables cutoff)) through := by
  obtain ⟨cutoff, rfl, hthrough, hsplit⟩ := hb candidate through hwriting
  rcases compact_cases docId outage s.tables (foldCandidate (readForCompaction s.tables cutoff))
    through (readForCompaction s.tables cutoff).expectedUpdateId with
    ⟨-, -, -, htables⟩ | ⟨-, htables⟩
  · exact Or.inr ⟨cutoff, hthrough, hsplit, htables⟩
  · exact Or.inl htables

theorem folded_compact {candidate : CompactionCandidate υ} {through : Nat}
    (outage : Option (CompactStatement × String)) (hs : s.Sequenced) (hb : Current s b)
    (hwriting : b.writing = .compacting candidate through) :
    let tables := (DocStore.compact docId outage s.tables (foldCandidate candidate) through
      candidate.expectedUpdateId).1
    Store.Sequenced { s with tables } ∧ Folded s.tables tables := by
  dsimp only
  rcases compact_current docId outage hb hwriting with
    htables | ⟨cutoff, hthrough, hsplit, htables⟩ <;> rw [htables]
  · exact ⟨hs, .refl _⟩
  · obtain ⟨last, -, -, hlt, -⟩ := throughUpdateId_eq_some hthrough
    refine ⟨sequenced_compacted hs hthrough _, contents_compacted_read hsplit hthrough, hlt.le,
      fun row hrow => ?_⟩
    by_cases hkept : through < row.id
    · exact Or.inl (List.mem_filter.mpr ⟨hrow, decide_eq_true hkept⟩)
    · exact Or.inr (Nat.le_of_not_lt hkept)

/-- A turn appends its batch to the log or folds it, and keeps the ids in
order. -/
theorem stored_turn (hs : s.Sequenced) (hb : Current s b) (he : e.Splits s.tables)
    (h : writeStep docId s b e = some (s', b')) :
    s'.Sequenced ∧ Current s' b' ∧
      ((∃ id merged, e = .append id ∧ b.writing = .appending merged ∧ s.nextId ≤ id ∧
          s' = { s with
            tables := appendUpdate s.tables ⟨id, merged, s.clock⟩, nextId := id + 1 }) ∨
        (∀ id, e ≠ .append id) ∧ s'.nextId = s.nextId ∧ Folded s.tables s'.tables) := by
  have hidle : ∀ (u : Store υ) (b' : DocPersistence υ), Current u b'.settle :=
    fun _ _ _ _ hw => by cases hw
  cases wrote h with
  | @append merged id hwriting hid =>
      exact ⟨sequenced_append hs hid merged, fun _ _ hw => (by cases hw),
        Or.inl ⟨id, merged, rfl, hwriting, hid, rfl⟩⟩
  | @readSome cutoff through _ hthrough =>
      refine ⟨hs, fun candidate t hw => ?_, Or.inr ⟨by simp, rfl, .refl _⟩⟩
      cases hw
      exact ⟨cutoff, rfl, hthrough, he⟩
  | compact hwriting =>
      obtain ⟨hsequenced, hfolded⟩ := folded_compact _ hs hb hwriting
      exact ⟨hsequenced, hidle _ _, Or.inr ⟨by simp, rfl, hfolded⟩⟩
  | skip => exact ⟨hs, hidle _ _, Or.inr ⟨by simp, rfl, .refl _⟩⟩
  | appendFails => exact ⟨hs, hidle _ _, Or.inr ⟨by simp, rfl, .refl _⟩⟩
  | countFew => exact ⟨hs, hidle _ _, Or.inr ⟨by simp, rfl, .refl _⟩⟩
  | readNone => exact ⟨hs, hidle _ _, Or.inr ⟨by simp, rfl, .refl _⟩⟩
  | compactionFails => exact ⟨hs, hidle _ _, Or.inr ⟨by simp, rfl, .refl _⟩⟩
  | _ => exact ⟨hs, fun _ _ hw => (by cases hw), Or.inr ⟨by simp, rfl, .refl _⟩⟩

/-- A turn never loses what is stored, whether or not its store call succeeds. -/
theorem stored_subset (hs : s.Sequenced) (hb : Current s b) (he : e.Splits s.tables)
    (h : writeStep docId s b e = some (s', b')) :
    s'.Sequenced ∧ Current s' b' ∧ contents s.tables ⊆ contents s'.tables := by
  obtain ⟨hsequenced, hcurrent, ⟨id, merged, -, -, -, rfl⟩ | ⟨-, -, hfolded⟩⟩ :=
    stored_turn hs hb he h
  · exact ⟨hsequenced, hcurrent, contents_subset_appendUpdate _ _⟩
  · exact ⟨hsequenced, hcurrent, hfolded.contents_eq.ge⟩

theorem ordered_turn (hs : s.Ordered) (hb : Current s b)
    (h : writeStep docId s b e = some (s', b')) : s'.Ordered := by
  cases wrote h with
  | append _ hid => exact ordered_append hs hid _
  | @compact _ _ outage hwriting =>
      rcases compact_current docId outage hb hwriting with
        htables | ⟨cutoff, hthrough, -, htables⟩ <;> rw [htables]
      · exact hs
      · exact ordered_compacted hs hthrough _
  | _ => exact hs

theorem unwritten_turn (hs : s.Sequenced) (h : writeStep docId s b e = some (s', b')) (u : υ) :
    (Unwritten b u → Unwritten b' u ∨ u ∈ contents s'.tables) ∧
      (Unwritten b' u → Unwritten b u) := by
  have hsame : (Unwritten b' u ↔ Unwritten b u) →
      (Unwritten b u → Unwritten b' u ∨ u ∈ contents s'.tables) ∧
        (Unwritten b' u → Unwritten b u) :=
    fun hiff => ⟨fun hu => Or.inl (hiff.mpr hu), hiff.mp⟩
  cases wrote h with
  | skip hidle hchain =>
      apply hsame
      simp [Unwritten, DocPersistence.settle, hchain, hidle]
  | @start batch rest _ hidle hchain =>
      apply hsame
      simp only [Unwritten, hchain, hidle, List.exists_mem_cons_iff, Writing.appending.injEq,
        exists_eq_left', mem_mergeUpdates, reduceCtorEq, false_and, exists_false, or_false]
      exact or_congr_right or_comm
  | append hwriting hid =>
      have hkept := kept_append hs hwriting hid
      exact ⟨hkept.written u, hkept.unwritten_only u⟩
  | appendFails hwriting =>
      apply hsame
      simp only [Unwritten, DocPersistence.settle, hwriting, List.exists_mem_cons_iff,
        Writing.appending.injEq, exists_eq_left', reduceCtorEq, false_and, exists_false, or_false]
      rw [or_assoc, or_comm, or_assoc]
  | compactionFails hwriting =>
      apply hsame
      apply unwritten_of_not_appending ?_ ?_ hwriting <;> simp [DocPersistence.settle]
  | _ hwriting =>
      apply hsame
      apply unwritten_of_not_appending <;> simp [DocPersistence.settle, hwriting]

theorem begun_turn (h : writeStep docId s b e = some (s', b')) :
    (∃ batch, b.chain = batch :: b'.chain ∧ b.writing = .idle ∧ begun b' = begun b + 1) ∨
      (b'.chain = b.chain ∧ b.writing ≠ .idle ∧ begun b' = begun b) := by
  cases wrote h with
  | skip hidle hchain =>
      exact Or.inl ⟨[], hchain, hidle, by simp [begun, DocPersistence.settle, hidle]⟩
  | start _ hidle hchain => exact Or.inl ⟨_, hchain, hidle, by simp [begun, hidle]⟩
  | compactionFails hwriting hbusy =>
      exact Or.inr ⟨rfl, hbusy, by simp [begun, DocPersistence.settle]⟩
  | append hwriting => exact Or.inr ⟨rfl, by simp [hwriting], by simp [begun, hwriting]⟩
  | _ hwriting =>
      exact Or.inr ⟨rfl, by simp [hwriting], by simp [begun, DocPersistence.settle, hwriting]⟩

theorem requested_turn (h : writeStep docId s b e = some (s', b')) :
    b'.requested = b.requested := by
  cases wrote h <;> rfl

theorem settled_turn (h : writeStep docId s b e = some (s', b')) : b.settled ≤ b'.settled := by
  cases wrote h <;> first | exact le_rfl | exact Nat.le_succ _

theorem counted_turn (hb : Counted b) (h : writeStep docId s b e = some (s', b')) :
    Counted b' := by
  unfold Counted at hb ⊢
  rw [requested_turn h, hb]
  rcases begun_turn h with ⟨batch, hchain, -, hbegun⟩ | ⟨hchain, -, hbegun⟩
  · rw [hchain, hbegun, List.length_cons]
    omega
  · rw [hchain, hbegun]

theorem kept_turn (hs : s.Sequenced) (hb : Current s b) (he : e.Splits s.tables)
    (h : writeStep docId s b e = some (s', b')) : Kept s s' b b' := by
  obtain ⟨hsequenced, hcurrent, hstored⟩ := stored_subset hs hb he h
  have hunwritten := unwritten_turn hs h
  refine ⟨hsequenced, hcurrent, hstored, ?_, ?_, fun u => (hunwritten u).1,
    fun u => (hunwritten u).2⟩
  · intro u hu
    obtain ⟨-, -, ⟨id, merged, -, hwriting, hid, rfl⟩ | ⟨-, -, hfolded⟩⟩ := stored_turn hs hb he h
    · exact (kept_append hs hwriting hid).stored_only u hu
    · exact Or.inl (hfolded.contents_eq ▸ hu)
  · intro hempty
    cases wrote h with
    | append _ hid => simp [appendUpdate, Tables.empty] at hempty
    | @compact _ _ outage hwriting =>
        rcases compact_current docId outage hb hwriting with
          htables | ⟨cutoff, -, -, htables⟩
        · exact htables.symm.trans hempty
        · exact absurd (htables.symm.trans hempty) (by simp [compacted, Tables.empty])
    | _ => exact hempty

theorem buffered_turn (hok : ∀ mergedBytes, e ≠ .appendFails mergedBytes)
    (h : writeStep docId s b e = some (s', b')) : b'.buffered = b.buffered := by
  cases wrote h with
  | appendFails => exact absurd rfl (hok _)
  | _ => rfl

/-- The last flush stays the last one as long as no append fails. -/
theorem final_turn {ticket : Nat} (hb : Final b ticket)
    (hok : ∀ mergedBytes, e ≠ .appendFails mergedBytes)
    (h : writeStep docId s b e = some (s', b')) : Final b' ticket := by
  have hbuffered := (buffered_turn hok h).trans hb.buffered_eq
  rcases begun_turn h with ⟨batch, hchain, hidle, hbegun⟩ | ⟨hchain, hbusy, hbegun⟩
  · have hlater := hb.later_empty
    rw [hchain] at hlater
    refine ⟨hbuffered, fun x hx => ?_, fun hbusy' => ?_⟩
    · by_cases hlt : begun b < ticket
      · apply hlater x
        obtain ⟨n, hn⟩ : ∃ n, ticket - begun b = n + 1 := ⟨ticket - begun b - 1, by omega⟩
        rw [hn, List.drop_succ_cons]
        rwa [hbegun, show ticket - (begun b + 1) = n by omega] at hx
      · rw [Nat.sub_eq_zero_of_le (Nat.le_of_not_lt hlt), List.drop_zero] at hlater
        exact hlater x (List.mem_cons_of_mem _ (List.mem_of_mem_drop hx))
    · by_contra hge
      have hsettled := begun_of_busy hbusy'
      rw [Nat.sub_eq_zero_of_le (by omega), List.drop_zero] at hlater
      -- a batch begun past the ticket is empty, and settles at once
      have hempty : batch = [] := hlater batch List.mem_cons_self
      rw [hempty] at hchain
      have hsame : ∀ b₂ : DocPersistence υ, b₂.settle.writing = .idle := fun _ => rfl
      cases wrote h with
      | skip => exact hbusy' (hsame _)
      | start hne _ hchain' => exact hne (List.cons.inj (hchain'.symm.trans hchain)).1
      | compactionFails _ hbusy => exact hbusy hidle
      | append hwriting => simp [hidle] at hwriting
      | appendFails => exact absurd rfl (hok _)
      | _ hwriting => simp [hidle] at hwriting
  · refine ⟨hbuffered, fun x hx => hb.later_empty x (by rwa [hchain, hbegun] at hx),
      fun hbusy' => ?_⟩
    have hsettled := begun_of_busy hbusy
    have hsettled' := begun_of_busy hbusy'
    have hlt := hb.writing_lt hbusy
    omega

end CollabIDE.Persistence.Turns
