import CollabIDE.Lib.Packing
import CollabIDE.Persistence.Lifetime
import Mathlib.Algebra.GroupWithZero.Nat
/-!
# What the write buffer holds

Every update the buffer has observed is in one committed row, in one batch on
the chain or in one entry of the buffer, whichever appends fail.
-/

namespace CollabIDE.Persistence.Conservation

open CollabIDE.Lib.Machine CollabIDE.Lib.Packing
open CollabIDE.Persistence.DocStore CollabIDE.Persistence.Buffer
open CollabIDE.Persistence.Turns CollabIDE.Persistence.Lifetime

variable {υ : Type}

/-- The rows the appends committed, with the batches merged into them. -/
def committed (s : Room υ) : List (Nat × List (Chunk υ)) :=
  s.appended.filterMap fun p => p.2.map fun id => (id, p.1.batch)

/-- The batches in flight or queued on the chain. -/
def queued (s : Room υ) : List (List (Chunk υ)) :=
  s.appending.toList.map AppendCall.batch ++ s.buffer.chain

/-- The appends started so far. -/
def started (s : Room υ) : List (AppendCall υ) :=
  s.appended.map Prod.fst ++ s.appending.toList

variable [DecidableEq υ]

/-- Where an update can be: a committed row, a queued batch, an entry of the
buffer. -/
def places (s : Room υ) : List (Finset υ) :=
  (committed s).map (fun row => mergeUpdates row.2) ++ (queued s).map mergeUpdates ++
    s.buffer.buffered.map Chunk.update

theorem mergeUpdates_eq_union (batch : List (Chunk υ)) :
    mergeUpdates batch = union (batch.map Chunk.update) := by
  ext u
  rw [mem_mergeUpdates, mem_union]
  simp

/-- The books of the buffer. -/
structure Ledger (opening : Opening υ) (s : Room υ) : Prop where
  bytes : s.buffer.bufferedBytes = (s.buffer.buffered.map Chunk.byteLength).sum
  captured_length : s.captured.length = s.buffer.requested
  /-- What is queued was captured by the calls whose links have not begun. -/
  chain_eq : s.buffer.chain = s.captured.drop (begun s.buffer)
  called : ∀ a ∈ started s, a.flush < begun s.buffer ∧ s.captured[a.flush]? = some a.batch
  inOrder : (started s).Pairwise fun a a' => a.flush < a'.flush
  rowOrder : (committed s).Pairwise fun row row' => row.1 < row'.1
  row_lt : ∀ row ∈ committed s, row.1 < s.store.nextId
  stored : ∀ row ∈ committed s, row.1 ≤ updateIdOrZero s.store.tables.docSnapshot ∨
    ∃ r ∈ s.store.tables.docUpdate, r.id = row.1 ∧ r.update = mergeUpdates row.2
  log : contents s.store.tables =
    contents opening.store.tables ∪ union ((committed s).map fun row => mergeUpdates row.2)
  nonempty : ∀ chunk ∈ s.observed, chunk.update.Nonempty
  packed : Packed (s.observed.map Chunk.update) (places s)
  order : (∀ p ∈ s.appended, p.2.isSome) →
    (committed s).flatMap Prod.snd ++ (queued s).flatten ++ s.buffer.buffered = s.observed

theorem ledger_init (opening : Opening υ) : Ledger opening (Room.init opening) where
  bytes := rfl
  captured_length := rfl
  chain_eq := rfl
  called := fun _ h => absurd h List.not_mem_nil
  inOrder := List.Pairwise.nil
  rowOrder := List.Pairwise.nil
  row_lt := fun _ h => absurd h List.not_mem_nil
  stored := fun _ h => absurd h List.not_mem_nil
  log := (Finset.union_empty _).symm
  nonempty := fun _ h => absurd h List.not_mem_nil
  packed := packed_nil
  order := fun _ => rfl

variable {opening : Opening υ} {s : Room υ}

theorem places_push (s : Room υ) (update : Chunk υ) (timer : Bool) :
    places (s.push update timer) = places s ++ [update.update] := by
  simp only [places, committed, queued, Room.push, List.map_append, List.map_cons, List.map_nil,
    List.append_assoc]

theorem places_flushed (s : Room υ) :
    places s.flushed = (committed s).map (fun row => mergeUpdates row.2) ++
      (queued s).map mergeUpdates ++ [union (s.buffer.buffered.map Chunk.update)] := by
  simp only [places, committed, queued, Room.flushed, flush, List.map_append, List.map_cons,
    List.map_nil, List.append_assoc, List.append_nil, mergeUpdates_eq_union]

theorem ledger_push (hinv : Inv s) (hs : Ledger opening s) {update : Chunk υ} (timer : Bool)
    (hne : update.update.Nonempty) (hnew : Disjoint s.ydoc update.update) :
    Ledger opening (s.push update timer) :=
  { hs with
    bytes := by simp [Room.push, hs.bytes]
    nonempty := fun chunk hchunk => by
      rcases List.mem_append.mp hchunk with hold | hlast
      · exact hs.nonempty chunk hold
      · rw [List.mem_singleton.mp hlast]
        exact hne
    packed := by
      rw [places_push, show (s.push update timer).observed.map Chunk.update =
        s.observed.map Chunk.update ++ [update.update] from List.map_append]
      apply hs.packed.push
      intro place hplace
      apply Finset.disjoint_of_subset_left _ hnew
      intro u hu
      obtain ⟨item, hitem, hu⟩ := hs.packed.only place hplace u hu
      obtain ⟨chunk, hchunk, rfl⟩ := List.mem_map.mp hitem
      exact hinv.applied chunk hchunk hu
    order := fun hok => by
      have horder := hs.order hok
      calc (committed s).flatMap Prod.snd ++ (queued s).flatten ++ (s.buffer.buffered ++ [update])
          = (committed s).flatMap Prod.snd ++ (queued s).flatten ++ s.buffer.buffered ++
              [update] := (List.append_assoc _ _ _).symm
        _ = s.observed ++ [update] := by rw [horder] }

theorem ledger_flushed (hinv : Inv s) (hs : Ledger opening s) : Ledger opening s.flushed :=
  { hs with
    bytes := rfl
    captured_length := by
      calc (s.captured ++ [s.buffer.buffered]).length
          = s.captured.length + 1 := List.length_append
        _ = s.buffer.requested + 1 := by rw [hs.captured_length]
    chain_eq := by
      have hle : begun s.buffer ≤ s.captured.length := by
        rw [hs.captured_length, hinv.counted]
        exact Nat.le_add_right _ _
      calc s.buffer.chain ++ [s.buffer.buffered]
          = s.captured.drop (begun s.buffer) ++ [s.buffer.buffered] := by rw [hs.chain_eq]
        _ = (s.captured ++ [s.buffer.buffered]).drop (begun s.buffer) :=
            (List.drop_append_of_le_length hle).symm
    called := fun a ha => by
      obtain ⟨hlt, hget⟩ := hs.called a ha
      have hin : a.flush < s.captured.length := (List.getElem?_eq_some_iff.mp hget).1
      exact ⟨hlt, (List.getElem?_append_left hin).trans hget⟩
    packed := by
      rw [places_flushed]
      exact hs.packed.merge
    order := fun hok => by
      refine Eq.trans ?_ (hs.order hok)
      simp only [committed, queued, Room.flushed, flush, List.flatten_append, List.flatten_cons,
        List.flatten_nil, List.append_nil, List.append_assoc] }

/-! ## The turns of `writeBatch` -/

theorem ledger_folded (hs : Ledger opening s) {store : Store υ}
    (hfolded : Folded s.store.tables store.tables) (hnext : store.nextId = s.store.nextId) :
    Ledger opening { s with store := store } :=
  { hs with
    row_lt := fun row hrow => (hs.row_lt row hrow).trans_eq hnext.symm
    stored := fun row hrow => by
      rcases hs.stored row hrow with hfold | ⟨r, hr, hid, hupdate⟩
      · exact Or.inl (hfold.trans hfolded.watermark_le)
      · rcases hfolded.row r hr with hkept | hfold
        · exact Or.inr ⟨r, hkept, hid, hupdate⟩
        · exact Or.inl (hid ▸ hfold)
    log := hfolded.contents_eq.trans hs.log }

theorem Ledger.rest_eq (hs : Ledger opening s) {batch : List (Chunk υ)}
    {rest : List (List (Chunk υ))} (hchain : s.buffer.chain = batch :: rest) :
    s.captured.drop (begun s.buffer + 1) = rest := by
  rw [← List.tail_drop, ← hs.chain_eq, hchain, List.tail_cons]

theorem ledger_skip (hs : Ledger opening s) {rest : List (List (Chunk υ))}
    (hidle : s.buffer.writing = .idle) (hchain : s.buffer.chain = [] :: rest) :
    Ledger opening { s with buffer := { s.buffer with chain := rest }.settle } := by
  have hbegun : begun { s.buffer with chain := rest }.settle = begun s.buffer + 1 := by
    simp [begun, DocPersistence.settle, hidle]
  have hqueued : queued s = s.appending.toList.map AppendCall.batch ++ [] :: rest := by
    rw [queued, hchain]
  refine { hs with
    chain_eq := ?_
    called := fun a ha => ?_
    packed := ?_
    order := fun hok => ?_ }
  · change rest = s.captured.drop (begun { s.buffer with chain := rest }.settle)
    rw [hbegun, hs.rest_eq hchain]
  · obtain ⟨hlt, hget⟩ := hs.called a ha
    exact ⟨hbegun ▸ Nat.lt_succ_of_lt hlt, hget⟩
  · have hplaces := hs.packed
    rw [places, hqueued] at hplaces
    simp only [List.map_append, List.map_cons, List.append_assoc, List.cons_append] at hplaces
    rw [← List.append_assoc] at hplaces
    have hdropped := Packed.drop_empty hplaces (by simpa using hs.nonempty)
    simpa only [places, queued, committed, DocPersistence.settle, List.map_append,
      List.append_assoc] using hdropped
  · refine Eq.trans ?_ (hs.order hok)
    simp [queued, committed, DocPersistence.settle, hchain]

theorem ledger_start (hs : Ledger opening s) {batch : List (Chunk υ)}
    {rest : List (List (Chunk υ))} (merged : Finset υ) (late : Bool)
    (hidle : s.buffer.writing = .idle) (hchain : s.buffer.chain = batch :: rest)
    (hnone : s.appending = none) :
    Ledger opening { s with
      buffer := { s.buffer with chain := rest, writing := .appending merged }
      appending := some ⟨s.buffer.settled, batch, late⟩ } := by
  have hbegun : begun { s.buffer with chain := rest, writing := .appending merged } =
      begun s.buffer + 1 := by
    simp [begun, hidle]
  have hstarted : started s = s.appended.map Prod.fst := by simp [started, hnone]
  have hsettled := begun_of_idle hidle
  refine { hs with
    chain_eq := ?_
    called := fun a ha => ?_
    inOrder := ?_
    packed := ?_
    order := fun hok => ?_ }
  · change rest = s.captured.drop (begun { s.buffer with chain := rest, writing := _ })
    rw [hbegun, hs.rest_eq hchain]
  · rcases List.mem_append.mp ha with hold | hnew
    · obtain ⟨hlt, hget⟩ := hs.called a (hstarted ▸ hold)
      exact ⟨hbegun ▸ Nat.lt_succ_of_lt hlt, hget⟩
    · obtain rfl := List.mem_singleton.mp hnew
      refine ⟨hbegun ▸ hsettled ▸ Nat.lt_succ_self _, ?_⟩
      calc s.captured[s.buffer.settled]?
          = (s.captured.drop (begun s.buffer))[0]? := by
            rw [List.getElem?_drop, hsettled, Nat.add_zero]
        _ = some batch := by rw [← hs.chain_eq, hchain, List.getElem?_cons_zero]
  · have horder := hs.inOrder
    rw [hstarted] at horder
    refine List.pairwise_append.mpr ⟨horder, List.pairwise_singleton _ _, fun a ha b hb => ?_⟩
    obtain rfl := List.mem_singleton.mp hb
    exact hsettled ▸ (hs.called a (hstarted ▸ ha)).1
  · simpa [places, queued, committed, hchain, hnone] using hs.packed
  · refine Eq.trans ?_ (hs.order hok)
    simp [queued, committed, hchain, hnone]

theorem ledger_append (hinv : Inv s) (hs : Ledger opening s) {a : AppendCall υ} {id : Nat}
    (happending : s.appending = some a)
    (hwriting : s.buffer.writing = .appending (mergeUpdates a.batch)) (hid : s.store.nextId ≤ id) :
    Ledger opening { s with
      store := { s.store with
        tables := appendUpdate s.store.tables ⟨id, mergeUpdates a.batch, s.store.clock⟩
        nextId := id + 1 }
      buffer := { s.buffer with writing := .appended }
      appending := none
      appended := s.appended ++ [(a, some id)] } := by
  have hcommitted : ∀ t : Room υ, t.appended = s.appended ++ [(a, some id)] →
      committed t = committed s ++ [(id, a.batch)] := fun t ht => by simp [committed, ht]
  have hbegun : begun { s.buffer with writing := .appended } = begun s.buffer := by
    simp [begun, hwriting]
  have hstarted : ∀ t : Room υ, t.appended = s.appended ++ [(a, some id)] → t.appending = none →
      started t = started s := fun t ht hnone => by simp [started, ht, hnone, happending]
  refine { hs with
    chain_eq := ?_
    called := fun b hb => ?_
    inOrder := ?_
    rowOrder := ?_
    row_lt := fun row hrow => ?_
    stored := fun row hrow => ?_
    log := ?_
    packed := ?_
    order := fun hok => ?_ }
  · exact hs.chain_eq.trans (congrArg s.captured.drop hbegun.symm)
  · rw [hstarted _ rfl rfl] at hb
    obtain ⟨hlt, hget⟩ := hs.called b hb
    exact ⟨hbegun ▸ hlt, hget⟩
  · rw [hstarted _ rfl rfl]
    exact hs.inOrder
  · rw [hcommitted _ rfl]
    refine List.pairwise_append.mpr ⟨hs.rowOrder, List.pairwise_singleton _ _, ?_⟩
    intro row hrow last hlast
    rw [List.mem_singleton.mp hlast]
    exact (hs.row_lt row hrow).trans_le hid
  · rw [hcommitted _ rfl] at hrow
    rcases List.mem_append.mp hrow with hold | hlast
    · exact (hs.row_lt row hold).trans (Nat.lt_succ_of_le hid)
    · rw [List.mem_singleton.mp hlast]
      exact Nat.lt_succ_self id
  · rw [hcommitted _ rfl] at hrow
    rcases List.mem_append.mp hrow with hold | hlast
    · rcases hs.stored row hold with hfolded | ⟨r, hr, hrow⟩
      · exact Or.inl hfolded
      · exact Or.inr ⟨r, List.mem_append_left _ hr, hrow⟩
    · rw [List.mem_singleton.mp hlast]
      exact Or.inr ⟨_, List.mem_append_right _ (List.mem_singleton_self _), rfl, rfl⟩
  · rw [hcommitted _ rfl]
    have hcontents :
        contents (appendUpdate s.store.tables ⟨id, mergeUpdates a.batch, s.store.clock⟩) =
          contents s.store.tables ∪ mergeUpdates a.batch :=
      contents_appendUpdate (hinv.ordered.watermark_lt.trans_le hid)
    rw [hcontents, hs.log, List.map_append, union_append, Finset.union_assoc]
    simp
  · simpa [places, committed, queued, happending] using hs.packed
  · refine Eq.trans ?_ (hs.order fun p hp => hok p (List.mem_append_left _ hp))
    simp [committed, queued, happending]

/-- The append fails: its batch goes back to the front of the buffer, merged. -/
theorem ledger_appendFails (hs : Ledger opening s) {a : AppendCall υ} (mergedBytes : Nat)
    (happending : s.appending = some a)
    (hwriting : s.buffer.writing = .appending (mergeUpdates a.batch)) :
    Ledger opening { s with
      buffer := { s.buffer with
        buffered := ⟨mergeUpdates a.batch, mergedBytes⟩ :: s.buffer.buffered
        bufferedBytes := s.buffer.bufferedBytes + mergedBytes }.settle
      appending := none
      appended := s.appended ++ [(a, none)] } := by
  have hcommitted : ∀ t : Room υ, t.appended = s.appended ++ [(a, none)] →
      committed t = committed s := fun t ht => by simp [committed, ht]
  have hstarted : ∀ t : Room υ, t.appended = s.appended ++ [(a, none)] → t.appending = none →
      started t = started s := fun t ht hnone => by simp [started, ht, hnone, happending]
  have hbegun : ∀ b : DocPersistence υ, b.writing = .idle → b.settled = s.buffer.settled + 1 →
      begun b = begun s.buffer := fun b hidle hsettled => by simp [begun, hidle, hsettled, hwriting]
  refine { hs with
    bytes := ?_
    chain_eq := ?_
    called := fun b hb => ?_
    inOrder := ?_
    rowOrder := ?_
    row_lt := ?_
    stored := ?_
    log := ?_
    packed := ?_
    order := fun hok => ?_ }
  · have hbytes := hs.bytes
    simp only [DocPersistence.settle, List.map_cons, List.sum_cons]
    omega
  · exact hs.chain_eq.trans (congrArg s.captured.drop (hbegun _ rfl rfl).symm)
  · rw [hstarted _ rfl rfl] at hb
    rw [hbegun _ rfl rfl]
    exact hs.called b hb
  · rw [hstarted _ rfl rfl]
    exact hs.inOrder
  · rw [hcommitted _ rfl]
    exact hs.rowOrder
  · rw [hcommitted _ rfl]
    exact hs.row_lt
  · rw [hcommitted _ rfl]
    exact hs.stored
  · rw [hcommitted _ rfl]
    exact hs.log
  · apply hs.packed.perm
    simp only [places, committed, queued, happending, DocPersistence.settle,
      List.filterMap_append, List.filterMap_cons, List.filterMap_nil, Option.map_none,
      List.append_nil, Option.toList_some, Option.toList_none, List.map_cons, List.map_nil,
      List.nil_append, List.cons_append, List.append_assoc]
    exact List.perm_middle.symm.append_left _
  · exact absurd (hok (a, none) (List.mem_append_right _ (List.mem_singleton_self _))) (by simp)

theorem ledger_later (hs : Ledger opening s) {buffer : DocPersistence υ}
    (hbuffered : buffer.buffered = s.buffer.buffered)
    (hbytes : buffer.bufferedBytes = s.buffer.bufferedBytes)
    (hchain : buffer.chain = s.buffer.chain) (hrequested : buffer.requested = s.buffer.requested)
    (hbegun : begun buffer = begun s.buffer) : Ledger opening { s with buffer := buffer } := by
  refine { hs with
    bytes := ?_
    captured_length := hs.captured_length.trans hrequested.symm
    chain_eq := ?_
    called := fun a ha => ?_
    packed := ?_
    order := fun hok => ?_ }
  · rw [hbytes, hbuffered]
    exact hs.bytes
  · rw [hchain, hbegun]
    exact hs.chain_eq
  · rw [hbegun]
    exact hs.called a ha
  · have hpacked := hs.packed
    simp only [places, committed, queued, hbuffered, hchain] at hpacked ⊢
    exact hpacked
  · have horder := hs.order hok
    simp only [committed, queued, hbuffered, hchain] at horder ⊢
    exact horder

theorem ledger_write (hinv : Inv s) (hs : Ledger opening s) {text : Finset υ → String}
    {docId : String} {e : WriteEvent υ} {store : Store υ} {buffer : DocPersistence υ}
    (hwrite : writeStep docId s.store s.buffer e = some (store, buffer)) :
    Ledger opening { s with
      store := store
      buffer := buffer
      content := s.nextContent text e
      appending := s.nextAppending e
      appended := s.nextAppended e } := by
  have hnone : s.buffer.writing = .idle → s.appending = none := by
    intro hidle
    cases happending : s.appending with
    | none => rfl
    | some a => exact absurd ((hinv.appending _).mpr ⟨a, happending, rfl⟩) (by simp [hidle])
  obtain ⟨-, -, hstored⟩ :=
    stored_turn hinv.ordered.sequenced hinv.current (hinv.ordered.splits _) hwrite
  have hfolded : (∀ id, e ≠ .append id) → Ledger opening { s with store := store } := by
    intro hne
    rcases hstored with ⟨id, -, rfl, -⟩ | ⟨-, hnext, hfolded⟩
    · exact absurd rfl (hne id)
    · exact ledger_folded hs hfolded hnext
  have hlater : s.buffer.writing ≠ .idle → (∀ id, e ≠ .append id) →
      buffer.buffered = s.buffer.buffered → buffer.bufferedBytes = s.buffer.bufferedBytes →
        Ledger opening { s with store := store, buffer := buffer } := by
    intro hbusy hne hbuffered hbytes
    rcases begun_turn hwrite with ⟨-, -, hidle, -⟩ | ⟨hchain, -, hbegun⟩
    · exact absurd hidle hbusy
    · exact ledger_later (hfolded hne) hbuffered hbytes hchain (requested_turn hwrite) hbegun
  cases wrote hwrite with
  | skip hidle hchain =>
      have happending : s.nextAppending .start = s.appending := by
        simp [Room.nextAppending, hchain, hnone hidle]
      rw [happending]
      exact { ledger_skip hs hidle hchain with }
  | @start batch rest hne hidle hchain =>
      have happending : s.nextAppending .start =
          some ⟨s.buffer.settled, batch, s.ticket.isSome⟩ := by
        obtain ⟨chunk, batch, rfl⟩ := List.exists_cons_of_ne_nil hne
        simp [Room.nextAppending, hchain]
      rw [happending]
      exact { ledger_start hs (mergeUpdates batch) _ hidle hchain (hnone hidle) with }
  | @append _ id hwriting hid =>
      obtain ⟨a, happending, rfl⟩ := (hinv.appending _).mp hwriting
      have happended : s.nextAppended (.append id) = s.appended ++ [(a, some id)] := by
        simp [Room.nextAppended, happending]
      rw [happended]
      exact { ledger_append hinv hs happending hwriting hid with }
  | @appendFails _ mergedBytes hwriting =>
      obtain ⟨a, happending, rfl⟩ := (hinv.appending _).mp hwriting
      have happended : s.nextAppended (.appendFails mergedBytes) = s.appended ++ [(a, none)] := by
        simp [Room.nextAppended, happending]
      rw [happended]
      exact { ledger_appendFails hs mergedBytes happending hwriting with }
  | compactionFails _ hbusy => exact { hlater hbusy (by simp) rfl rfl with }
  | _ hwriting => exact { hlater (by simp [hwriting]) (by simp) rfl rfl with }

theorem ledger_step {text : Finset υ → String} {docId : String} {s' : Room υ} {e : Event υ}
    (hinv : Inv s) (hs : Ledger opening s) (h : step text docId s e = some s') :
    Ledger opening s' := by
  cases took h with
  | nothing => exact hs
  | push _ hne hnew => exact ledger_push hinv hs _ hne hnew
  | @pushFull _ _ update timer _ hne hnew =>
      exact ledger_flushed (inv_push hinv update timer) (ledger_push hinv hs timer hne hnew)
  | timerFires => exact ledger_flushed hinv hs
  | flush => exact ledger_flushed hinv hs
  | leave => exact { ledger_flushed hinv hs with }
  | write _ hwrite => exact ledger_write hinv hs hwrite
  | destroy => exact { hs with }
  | tick => exact { hs with }

theorem ledger_run {text : Finset υ → String} {docId : String} {events : List (Event υ)}
    (h : run (step text docId) (Room.init opening) events = some s) : Ledger opening s :=
  (run_invariant (P := fun s => Inv s ∧ Ledger opening s)
    (fun _ _ _ hs h => ⟨inv_step hs.1 h, ledger_step hs.1 hs.2 h⟩)
    ⟨inv_init opening, ledger_init opening⟩ h).2

/-! ## Conservation -/

/-- Wholly in one place, and not even partly in another. -/
def InOnePlace (s : Room υ) (update : Finset υ) : Prop :=
  update.Nonempty ∧ ∃ i : Fin (places s).length,
    update ⊆ (places s).get i ∧ ∀ j, j ≠ i → Disjoint update ((places s).get j)

/-- Appends run one at a time, each on the batch its flush captured, in the order
the flushes were called; so do the ids of their rows. -/
structure InCallOrder (s : Room υ) : Prop where
  batch : ∀ a ∈ started s, s.captured[a.flush]? = some a.batch
  inOrder : (started s).Pairwise fun a a' => a.flush < a'.flush
  oneInFlight : ∀ merged, s.buffer.writing = .appending merged ↔
    ∃ a, s.appending = some a ∧ mergeUpdates a.batch = merged
  rowOrder : (committed s).Pairwise fun row row' => row.1 < row'.1

/-- The committed rows are what the log has on top of what it had: each as a row
of its own, until it is folded into the snapshot. -/
structure InLog (opening : Opening υ) (s : Room υ) : Prop where
  row : ∀ row ∈ committed s, row.1 ≤ updateIdOrZero s.store.tables.docSnapshot ∨
    ∃ r ∈ s.store.tables.docUpdate, r.id = row.1 ∧ r.update = mergeUpdates row.2
  log : contents s.store.tables =
    contents opening.store.tables ∪ union ((committed s).map fun row => mergeUpdates row.2)

/-- In every state of every run the buffer accounts for each observed update
once, and without failures in order. -/
theorem updates_conserved {text : Finset υ → String} {docId : String} {events : List (Event υ)}
    (h : run (step text docId) (Room.init opening) events = some s) :
    (∀ chunk ∈ s.observed, InOnePlace s chunk.update) ∧
      s.buffer.bufferedBytes = (s.buffer.buffered.map Chunk.byteLength).sum ∧
      InCallOrder s ∧ InLog opening s ∧
      ((∀ p ∈ s.appended, p.2.isSome) →
        (committed s).flatMap Prod.snd ++ (queued s).flatten ++ s.buffer.buffered =
          s.observed) := by
  have hinv := Lifetime.inv_run h
  have hs := ledger_run h
  refine ⟨fun chunk hchunk => ⟨hs.nonempty chunk hchunk, ?_⟩, hs.bytes, ?_, ⟨hs.stored, hs.log⟩,
    hs.order⟩
  · exact hs.packed.exists_bin (List.mem_map_of_mem hchunk)
  · exact ⟨fun a ha => (hs.called a ha).2, hs.inOrder, hinv.appending, hs.rowOrder⟩

/-- An append fails while a second batch is queued behind it. -/
theorem updates_conserved_requeued :
    ∃ s : Room Nat,
      run (step (fun _ => "") "p:f") (Room.init .seeded)
        [.update {1} 10, .flush, .write .start, .update {2} 20, .timerFires, .update {3} 30,
          .write (.appendFails 12), .write .start, .write (.append 5)] = some s ∧
      ∀ chunk ∈ s.observed, InOnePlace s chunk.update := by
  have hrun : (run (step (fun _ => "") "p:f") (Room.init (.seeded : Opening Nat))
      [.update {1} 10, .flush, .write .start, .update {2} 20, .timerFires, .update {3} 30,
        .write (.appendFails 12), .write .start, .write (.append 5)]).isSome = true := rfl
  obtain ⟨s, hs⟩ := Option.isSome_iff_exists.mp hrun
  exact ⟨s, hs, (updates_conserved hs).1⟩

end CollabIDE.Persistence.Conservation
