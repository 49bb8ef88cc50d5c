import CollabIDE.Collab.Instances
import CollabIDE.Persistence.Placement
import Mathlib.Data.Fintype.EquivFin
/-!
# First opens of a document

Instances that open a document nothing is stored of yet, over a log to which all
of them append and which any of them compacts.  `createRoom` reads that nothing
exists in one step and upserts its seed in another, with no comparison in
between.  A seed stored later than that replaces what is stored by then: another
instance's text, or what a compaction has folded.
-/

namespace CollabIDE.Collab.Seeding

open CollabIDE.Lib.Machine CollabIDE.Collab.Instances CollabIDE.Persistence
open CollabIDE.Persistence.DocStore CollabIDE.Persistence.Compactor

structure State where
  log : SharedLog.State Update
  opening : InstanceId → Opening
  /-- The edits made so far. -/
  edits : Finset Nat
  /-- What each edit was made on top of. -/
  deps : Nat → Finset Update
  /-- The append a room waits for: the length of its batch, and its row. -/
  appending : InstanceId → Option (Nat × DocUpdate Update)

def State.init (clock : Int) : State :=
  ⟨SharedLog.init clock, fun _ => .closed, ∅, fun _ => ∅, fun _ => none⟩

/-- The instances and the tables. -/
def State.cluster (s : State) : Cluster := ⟨s.log.tables, s.log.nextId, s.opening, s.edits⟩

def State.set (s : State) (cluster : Cluster) : State :=
  { s with
    log := { s.log with tables := cluster.tables }
    opening := cluster.opening
    edits := cluster.edits }

/-- The same, once a seed is stored. -/
def State.setSeed (s : State) (cluster : Cluster) : State :=
  { s with
    log := { s.log with
      tables := cluster.tables
      seed := cluster.tables.docSnapshot.map DocSnapshot.snapshot }
    opening := cluster.opening }

inductive Event
  | load (i : InstanceId)
  | seed (i : InstanceId)
  | edit (i : InstanceId) (n : Nat) (deps : Finset Update)
  /-- The row of a batch of the first `count` updates that are left gets its id and its time. -/
  | append (i : InstanceId) (count id : Nat) (createdAt : Int)
  /-- The row is committed, and `appendUpdate` returns. -/
  | appended (i : InstanceId)
  /-- `maybeCompact` of any instance reads its candidate. -/
  | read (cutoff : Int)
  | compact (candidate : CompactionCandidate Update) (outage : Option (CompactStatement × String))

variable (docId content : String)

/-- `content` is `File.content`, which no flush has written before the first
seed is stored.  An append that fails leaves the batch where it was. -/
def step (s : State) : Event → Option State
  | .load i => (s.cluster.load i content).map s.set
  | .seed i => (s.cluster.seed i).map s.setSeed
  | .edit i n deps =>
    match s.opening i with
    | .opened room =>
      if deps ⊆ room.ydoc then
        (s.cluster.edit i n).map fun cluster =>
          { s.set cluster with deps := Function.update s.deps n deps }
      else none
    | _ => none
  | .append i count id createdAt =>
    match s.opening i, s.appending i with
    | .opened room, none =>
      if 0 < count ∧ count ≤ room.unwritten.length then
        let row := ⟨id, (room.unwritten.take count).toFinset, createdAt⟩
        (SharedLog.step docId s.log (.allocate row)).map fun log =>
          { s with log, appending := Function.update s.appending i (some (count, row)) }
      else none
    | _, _ => none
  | .appended i =>
    match s.opening i, s.appending i with
    | .opened room, some (count, row) =>
      (SharedLog.step docId s.log (.commit row)).map fun log =>
        { s with
          log
          opening := Function.update s.opening i
            (.opened { room with unwritten := room.unwritten.drop count })
          appending := Function.update s.appending i none }
    | _, _ => none
  | .read cutoff => (SharedLog.step docId s.log (.read cutoff)).map fun log => { s with log }
  | .compact candidate outage =>
    (SharedLog.step docId s.log (.compact candidate outage)).map fun log => { s with log }

/-- What an update depends on; a seed stands by itself. -/
def dependencies (deps : Nat → Finset Update) : Update → Finset Update
  | .seed _ => ∅
  | .edit n => deps n

/-- What `load` rebuilds has one seed, once something is stored, and everything
the rows of the log depend on. -/
def Complete (s : State) : Prop :=
  ((load s.log.tables).exists = true →
    ∃ i, seedsIn (rebuild (load s.log.tables)) = seedOf i content) ∧
  ∀ row ∈ s.log.tables.docUpdate, ∀ u ∈ row.update,
    dependencies s.deps u ⊆ rebuild (load s.log.tables)

/-- A seed is stored where no snapshot is, or over an empty one that no
compaction has replaced. -/
def Alone (s : State) : Event → Prop
  | .seed _ => s.log.tables.docSnapshot = none ∨
    content.length = 0 ∧ updateIdOrZero s.log.tables.docSnapshot = 0
  | _ => True

instance (s : State) (e : Event) : Decidable (Alone content s e) := by
  unfold Alone
  split <;> infer_instance

def Event.isSeed : Event → Bool
  | .seed _ => true
  | _ => false

/-! ## What a step does -/

/-- The steps of the instances, one constructor for each way a step can go. -/
inductive Took (s : State) : Event → State → Prop
  | load {i : InstanceId} (hi : s.opening i = .closed)
      (hexists : (load s.log.tables).exists = true) :
      Took s (.load i) { s with
        opening := Function.update s.opening i (.opened ⟨contents s.log.tables, []⟩) }
  | miss {i : InstanceId} (hi : s.opening i = .closed) :
      Took s (.load i) { s with opening := Function.update s.opening i (.seeding content) }
  | seed {i : InstanceId} {text : String} (hi : s.opening i = .seeding text) :
      Took s (.seed i) { s with
        log := { s.log with
          tables := writeSnapshot s.log.tables (seedOf i text) 0
          seed := some (seedOf i text) }
        opening := Function.update s.opening i (.opened ⟨seedOf i text, []⟩) }
  | edit {i : InstanceId} {n : Nat} {deps : Finset Update} {room : Room}
      (hi : s.opening i = .opened room) (hdeps : deps ⊆ room.ydoc) (hn : n ∉ s.edits) :
      Took s (.edit i n deps) { s with
        opening := Function.update s.opening i (.opened (room.apply (.edit n)))
        edits := insert n s.edits
        deps := Function.update s.deps n deps }
  | append {i : InstanceId} {count : Nat} {room : Room} {row : DocUpdate Update}
      (hi : s.opening i = .opened room) (hidle : s.appending i = none) (hpos : 0 < count)
      (hcount : count ≤ room.unwritten.length)
      (hupdate : row.update = (room.unwritten.take count).toFinset)
      (hid : s.log.nextId ≤ row.id) (hclock : s.log.clock ≤ row.createdAt) :
      Took s (.append i count row.id row.createdAt) { s with
        log := { s.log with
          inFlight := s.log.inFlight ++ [row], nextId := row.id + 1, clock := row.createdAt }
        appending := Function.update s.appending i (some (count, row)) }
  | appended {i : InstanceId} {count : Nat} {room : Room} {row : DocUpdate Update}
      (hi : s.opening i = .opened room) (happending : s.appending i = some (count, row))
      (hrow : row ∈ s.log.inFlight) :
      Took s (.appended i) { s with
        log := { s.log with
          tables := appendUpdate s.log.tables row
          inFlight := s.log.inFlight.erase row
          committed := s.log.committed ∪ row.update }
        opening := Function.update s.opening i
          (.opened { room with unwritten := room.unwritten.drop count })
        appending := Function.update s.appending i none }
  | read {cutoff : Int} (hage : ∀ row ∈ s.log.inFlight, cutoff ≤ row.createdAt) :
      Took s (.read cutoff) { s with
        log := { s.log with
          candidates := readForCompaction s.log.tables cutoff :: s.log.candidates } }
  | compacted {candidate : CompactionCandidate Update} {through : Nat}
      {outage : Option (CompactStatement × String)} (hmem : candidate ∈ s.log.candidates)
      (hthrough : candidate.throughUpdateId = some through)
      (hcas : candidate.expectedUpdateId = s.log.tables.docSnapshot.map DocSnapshot.updateId) :
      Took s (.compact candidate outage) { s with
        log := { s.log with
          tables := DocStore.compacted s.log.tables (foldCandidate candidate) through } }
  | refused {candidate : CompactionCandidate Update}
      {outage : Option (CompactStatement × String)} : Took s (.compact candidate outage) s

variable {docId content : String} {s s' : State} {i : InstanceId}

theorem took {e : Event} (h : step docId content s e = some s') : Took content s e s' := by
  cases e with
  | load i =>
      obtain ⟨cluster, hload, rfl⟩ := Option.map_eq_some_iff.mp h
      obtain ⟨hi, ⟨hexists, rfl⟩ | ⟨-, rfl⟩⟩ := load_eq_some hload
      · exact .load hi hexists
      · exact .miss hi
  | seed i =>
      obtain ⟨cluster, hseed, rfl⟩ := Option.map_eq_some_iff.mp h
      obtain ⟨text, hi, rfl⟩ := seed_eq_some hseed
      exact .seed hi
  | edit i n deps =>
      cases hi : s.opening i <;> simp only [step, hi, reduceCtorEq] at h
      next room =>
        simp only [Option.ite_none_right_eq_some, Option.map_eq_some_iff] at h
        obtain ⟨hdeps, cluster, hedit, rfl⟩ := h
        obtain ⟨room', hi', hn, rfl⟩ := edit_eq_some hedit
        cases hi.symm.trans hi'
        exact .edit hi hdeps hn
  | append i count id createdAt =>
      cases hi : s.opening i <;> cases hidle : s.appending i <;>
        simp only [step, hi, hidle, reduceCtorEq] at h
      next room =>
        simp only [Option.ite_none_right_eq_some, Option.map_eq_some_iff, SharedLog.step,
          Option.some.injEq] at h
        obtain ⟨⟨hpos, hcount⟩, log, ⟨⟨hid, hclock⟩, rfl⟩, rfl⟩ := h
        let row : DocUpdate Update := ⟨id, (room.unwritten.take count).toFinset, createdAt⟩
        have hupdate : row.update = (room.unwritten.take count).toFinset := rfl
        exact .append hi hidle hpos hcount hupdate hid hclock
  | appended i =>
      cases hi : s.opening i <;> cases happending : s.appending i <;>
        simp only [step, hi, happending, reduceCtorEq] at h
      next room batch =>
        obtain ⟨count, row⟩ := batch
        simp only [Option.map_eq_some_iff, SharedLog.step, Option.ite_none_right_eq_some,
          Option.some.injEq] at h
        obtain ⟨log, ⟨hrow, rfl⟩, rfl⟩ := h
        exact .appended hi happending hrow
  | read cutoff =>
      simp only [step, SharedLog.step, Option.map_eq_some_iff, Option.ite_none_right_eq_some,
        Option.some.injEq] at h
      obtain ⟨log, ⟨hage, rfl⟩, rfl⟩ := h
      exact .read hage
  | compact candidate outage =>
      simp only [step, SharedLog.step, Option.map_eq_some_iff,
        Option.ite_none_right_eq_some] at h
      obtain ⟨log, ⟨hmem, through, hthrough, rfl⟩, rfl⟩ := h
      rcases compact_cases docId outage s.log.tables (foldCandidate candidate) through
        candidate.expectedUpdateId with ⟨-, hcas, -, htables⟩ | ⟨-, htables⟩
      · rw [htables]
        exact .compacted hmem hthrough hcas
      · rw [htables]
        exact .refused

/-! ## What is there and what is on its way -/

/-- A room whose document is stored or on its way, in an order in which every
edit comes after what it was made on top of. -/
structure Sound (edits : Finset Nat) (stored : Finset Update) (deps : Nat → Finset Update)
    (room : Room) : Prop where
  made : ∀ n, .edit n ∈ room.ydoc → n ∈ edits
  unwritten : ∀ u ∈ room.unwritten, u ∈ room.ydoc ∧ u.isSeed = false ∧ u ∉ stored
  nodup : room.unwritten.Nodup
  held : ∀ u ∈ room.ydoc, u ∈ stored ∨ u ∈ room.unwritten
  ordered : ∀ earlier u later, room.unwritten = earlier ++ u :: later →
    ∀ d ∈ dependencies deps u, d ∈ stored ∨ d ∈ earlier

/-- The rooms have nothing in common that is not stored. -/
def Apart (opening : InstanceId → Opening) : Prop :=
  ∀ i j room room', i ≠ j → opening i = .opened room → opening j = .opened room' →
    ∀ u ∈ room.unwritten, u ∉ room'.unwritten

/-- Everything that is stored is in a room. -/
def Kept (opening : InstanceId → Opening) (stored : Finset Update) : Prop :=
  ∀ u ∈ stored, ∃ k room, opening k = .opened room ∧ u ∈ room.ydoc

/-- The append of a room carries the front of what it has not written. -/
def Appending (s : State) : Prop :=
  ∀ i count row, s.appending i = some (count, row) → row ∈ s.log.inFlight ∧
    ∃ room, s.opening i = .opened room ∧ 0 < count ∧ count ≤ room.unwritten.length ∧
      row.update = (room.unwritten.take count).toFinset

section Rooms

variable {opening : InstanceId → Opening} {edits edits' : Finset Nat}
  {stored stored' : Finset Update} {deps deps' : Nat → Finset Update} {room room' : Room}

theorem Sound.mono (h : Sound edits stored deps room) (hedits : edits ⊆ edits')
    (hstored : stored ⊆ stored') (hnew : ∀ u ∈ room.unwritten, u ∉ stored')
    (hdeps : ∀ u ∈ room.unwritten, dependencies deps' u = dependencies deps u) :
    Sound edits' stored' deps' room where
  made n hn := hedits (h.made n hn)
  unwritten u hu := ⟨(h.unwritten u hu).1, (h.unwritten u hu).2.1, hnew u hu⟩
  nodup := h.nodup
  held u hu := (h.held u hu).imp_left fun hmem => hstored hmem
  ordered earlier u later hsplit d hd := by
    have hu : u ∈ room.unwritten := by
      rw [hsplit]
      exact List.mem_append_right _ List.mem_cons_self
    exact (h.ordered earlier u later hsplit d (hdeps u hu ▸ hd)).imp_left fun hmem => hstored hmem

theorem sound_open {ydoc : Finset Update} (hmade : ∀ n, .edit n ∈ ydoc → n ∈ edits)
    (hydoc : ydoc ⊆ stored) : Sound edits stored deps ⟨ydoc, []⟩ where
  made := hmade
  unwritten _ hu := absurd hu List.not_mem_nil
  nodup := List.nodup_nil
  held _ hu := .inl (hydoc hu)
  ordered earlier u later hsplit := by simp at hsplit

theorem dependencies_update {n : Nat} {d : Finset Update} {u : Update}
    (hu : u ≠ .edit n) : dependencies (Function.update deps n d) u = dependencies deps u := by
  cases u with
  | seed r => rfl
  | edit m =>
      have hne : m ≠ n := fun heq => hu (congrArg Update.edit heq)
      exact Function.update_of_ne hne _ _

theorem apply_edit {n : Nat} (hn : .edit n ∉ room.ydoc) :
    room.apply (.edit n) = ⟨insert (.edit n) room.ydoc, room.unwritten ++ [.edit n]⟩ :=
  if_neg hn

/-- The room an edit is made in: the edit is the last of what it has not written. -/
theorem Sound.apply {n : Nat} {new : Finset Update} (h : Sound edits stored deps room)
    (hnew : .edit n ∉ room.ydoc) (hstored : .edit n ∉ stored) (hdeps : new ⊆ room.ydoc) :
    Sound (insert n edits) stored (Function.update deps n new) (room.apply (.edit n)) := by
  rw [apply_edit hnew]
  have hother : ∀ u ∈ room.unwritten, u ≠ .edit n := by
    rintro u hu rfl
    exact hnew (h.unwritten _ hu).1
  refine ⟨fun m hm => ?_, fun u hu => ?_, ?_, fun u hu => ?_, fun earlier u later hsplit d hd => ?_⟩
  · rcases Finset.mem_insert.mp hm with heq | hmem
    · exact Update.edit.inj heq ▸ Finset.mem_insert_self _ _
    · exact Finset.mem_insert_of_mem (h.made m hmem)
  · rcases List.mem_append.mp hu with hmem | hlast
    · obtain ⟨hydoc, hedit, hunstored⟩ := h.unwritten u hmem
      exact ⟨Finset.mem_insert_of_mem hydoc, hedit, hunstored⟩
    · obtain rfl := List.mem_singleton.mp hlast
      exact ⟨Finset.mem_insert_self _ _, rfl, hstored⟩
  · refine List.nodup_append.mpr ⟨h.nodup, List.pairwise_singleton _ _, ?_⟩
    rintro u hu v hv rfl
    exact hother u hu (List.mem_singleton.mp hv)
  · rcases Finset.mem_insert.mp hu with rfl | hmem
    · exact .inr (List.mem_append_right _ (List.mem_singleton_self _))
    · exact (h.held u hmem).imp_right (List.mem_append_left _)
  · rcases List.eq_nil_or_concat later with rfl | ⟨later, last, rfl⟩
    · -- the new edit itself
      obtain ⟨rfl, hlast⟩ := List.append_inj' hsplit rfl
      obtain rfl : .edit n = u := List.head_eq_of_cons_eq hlast
      simp only [dependencies, Function.update_self] at hd
      exact h.held d (hdeps hd)
    · have hsplit' : room.unwritten = earlier ++ u :: later := by
        rw [List.concat_eq_append, ← List.cons_append, ← List.append_assoc] at hsplit
        exact (List.append_inj' hsplit rfl).1
      have hu : u ∈ room.unwritten := hsplit' ▸ List.mem_append_right _ List.mem_cons_self
      rw [dependencies_update (hother u hu)] at hd
      exact h.ordered earlier u later hsplit' d hd

/-- The room whose front has been stored. -/
theorem Sound.drop {count : Nat} (h : Sound edits stored deps room)
    (hstored : stored' = stored ∪ (room.unwritten.take count).toFinset) :
    Sound edits stored' deps { room with unwritten := room.unwritten.drop count } := by
  subst hstored
  have hleft : room.unwritten.take count ++ room.unwritten.drop count = room.unwritten :=
    List.take_append_drop count room.unwritten
  have htaken : ∀ u ∈ room.unwritten.take count,
      u ∈ stored ∪ (room.unwritten.take count).toFinset := fun u hu =>
    Finset.mem_union_right _ (List.mem_toFinset.mpr hu)
  have hdisjoint : ∀ u ∈ room.unwritten.drop count, u ∉ room.unwritten.take count := by
    intro u hdrop hu
    have hnodup := h.nodup
    rw [← hleft, List.nodup_append] at hnodup
    exact hnodup.2.2 u hu u hdrop rfl
  refine ⟨h.made, fun u hu => ?_, h.nodup.sublist (List.drop_sublist _ _),
    fun u hu => ?_, fun earlier u later hsplit d hd => ?_⟩
  · obtain ⟨hydoc, hedit, hunstored⟩ := h.unwritten u (List.mem_of_mem_drop hu)
    refine ⟨hydoc, hedit, fun hmem => ?_⟩
    rcases Finset.mem_union.mp hmem with hold | hbatch
    · exact hunstored hold
    · exact hdisjoint u hu (List.mem_toFinset.mp hbatch)
  · rcases h.held u hu with hold | hmem
    · exact .inl (Finset.mem_union_left _ hold)
    · rw [← hleft, List.mem_append] at hmem
      exact hmem.imp_left (htaken u)
  · have hsplit' : room.unwritten = (room.unwritten.take count ++ earlier) ++ u :: later := by
      rw [List.append_assoc, ← hsplit, hleft]
    rcases h.ordered _ u later hsplit' d hd with hold | hearlier
    · exact .inl (Finset.mem_union_left _ hold)
    · exact (List.mem_append.mp hearlier).imp_left (htaken d)

theorem seeding_update {j : InstanceId} {text : String}
    (h : Function.update opening i (.opened room) j = .seeding text) :
    opening j = .seeding text := by
  by_cases hji : j = i
  · rw [hji, Function.update_self] at h
    cases h
  · rwa [Function.update_of_ne hji] at h

theorem exists_opened_update {k : InstanceId} (h : opening k = .opened room) :
    ∃ other, Function.update opening i (.opened room') k = .opened other := by
  by_cases hki : k = i
  · rw [hki, Function.update_self]
    exact ⟨room', rfl⟩
  · rw [Function.update_of_ne hki]
    exact ⟨room, h⟩

theorem apart_update (h : Apart opening)
    (hown : ∀ j other, j ≠ i → opening j = .opened other → ∀ u ∈ room.unwritten,
      u ∉ other.unwritten) : Apart (Function.update opening i (.opened room)) := by
  intro j k room₁ room₂ hne hj hk u hu
  rcases opened_update hj with ⟨rfl, rfl⟩ | ⟨hji, hj'⟩
  · rcases opened_update hk with ⟨rfl, -⟩ | ⟨hki, hk'⟩
    · exact absurd rfl hne
    · exact hown k room₂ hki hk' u hu
  · rcases opened_update hk with ⟨rfl, rfl⟩ | ⟨-, hk'⟩
    · exact fun hmem => hown j room₁ hji hj' u hmem hu
    · exact h j k room₁ room₂ hne hj' hk' u hu

theorem kept_update (h : Kept opening stored)
    (hgrows : ∀ other, opening i = .opened other → other.ydoc ⊆ room.ydoc)
    (hnew : ∀ u ∈ stored', u ∈ stored ∨ u ∈ room.ydoc) :
    Kept (Function.update opening i (.opened room)) stored' := by
  intro u hu
  rcases hnew u hu with hold | hroom
  · obtain ⟨k, other, hk, hmem⟩ := h u hold
    by_cases hki : k = i
    · subst hki
      exact ⟨k, room, Function.update_self _ _ _, hgrows other hk hmem⟩
    · exact ⟨k, other, (Function.update_of_ne hki _ _).trans hk, hmem⟩
  · exact ⟨i, room, Function.update_self _ _ _, hroom⟩

end Rooms

/-- What holds as long as no seed is stored over what would be lost. -/
structure Whole (content : String) (s : State) : Prop where
  log : SharedLog.Inv s.log
  placed : SharedLog.Placed s.log
  /-- Nothing is there before the first seed. -/
  fresh : s.log.tables.docSnapshot = none → s.log.seed = none ∧ s.log.committed = ∅ ∧
    s.log.tables.docUpdate = [] ∧ ∀ i room, s.opening i ≠ .opened room
  seeded : s.log.tables.docSnapshot ≠ none → ∃ k room, s.log.seed = some (seedOf k content) ∧
    s.opening k = .opened room
  zero : ∀ snap, s.log.tables.docSnapshot = some snap → snap.updateId = 0 →
    ∃ k, snap.snapshot = seedOf k content
  committed : ∀ u ∈ s.log.committed, ∃ n ∈ s.edits, u = .edit n
  rows : ∀ row ∈ s.log.tables.docUpdate, row.update ⊆ s.log.committed ∧
    ∀ u ∈ row.update, dependencies s.deps u ⊆ contents s.log.tables
  seeding : ∀ i text, s.opening i = .seeding text → text = content
  rooms : ∀ i room, s.opening i = .opened room →
    Sound s.edits (contents s.log.tables) s.deps room
  apart : Apart s.opening
  kept : Kept s.opening (contents s.log.tables)
  appending : Appending s

theorem whole_init (clock : Int) : Whole content (State.init clock) where
  log := SharedLog.inv_init clock
  placed := SharedLog.placed_init clock
  fresh _ := ⟨rfl, rfl, rfl, fun _ _ => Opening.noConfusion⟩
  seeded h := absurd rfl h
  zero _ h := absurd h.symm (Option.some_ne_none _)
  committed _ h := absurd h (Finset.notMem_empty _)
  rows _ h := absurd h List.not_mem_nil
  seeding _ _ := Opening.noConfusion
  rooms _ _ := Opening.noConfusion
  apart _ _ _ _ _ := Opening.noConfusion
  kept _ h := by simp [State.init, SharedLog.init, Tables.empty, mem_contents] at h
  appending _ _ _ h := absurd h.symm (Option.some_ne_none _)

theorem Whole.docSnapshot_ne_none (h : Whole content s) {room : Room}
    (hi : s.opening i = .opened room) : s.log.tables.docSnapshot ≠ none :=
  fun hnone => (h.fresh hnone).2.2.2 i room hi

theorem Whole.contents_eq (h : Whole content s) (hsnap : s.log.tables.docSnapshot ≠ none) :
    ∃ k room, s.opening k = .opened room ∧
      contents s.log.tables = seedOf k content ∪ s.log.committed := by
  obtain ⟨k, room, hseed, hk⟩ := h.seeded hsnap
  refine ⟨k, room, hk, ?_⟩
  rw [h.log.contents_eq, hseed, Option.getD_some]

theorem Whole.made_stored (h : Whole content s) {n : Nat} (hn : .edit n ∈ contents s.log.tables) :
    n ∈ s.edits := by
  have hcommitted : .edit n ∈ s.log.committed := by
    rw [h.log.contents_eq, Finset.mem_union] at hn
    refine hn.resolve_left fun hseed => ?_
    by_cases hnone : s.log.tables.docSnapshot = none
    · rw [(h.fresh hnone).1] at hseed
      exact Finset.notMem_empty _ hseed
    · obtain ⟨k, -, hk, -⟩ := h.seeded hnone
      rw [hk, Option.getD_some] at hseed
      exact absurd (eq_seed_of_mem_seedOf hseed) (by simp)
  obtain ⟨m, hm, heq⟩ := h.committed _ hcommitted
  exact Update.edit.inj heq ▸ hm

theorem Whole.complete (h : Whole content s) : Complete content s := by
  rw [Complete, rebuild_load]
  refine ⟨fun hexists => ?_, fun row hrow u hu => (h.rows row hrow).2 u hu⟩
  have hsnap : s.log.tables.docSnapshot ≠ none := by
    intro hnone
    rcases load_exists_iff.mp hexists with hsome | ⟨row, hrow, -⟩
    · rw [hnone] at hsome
      cases hsome
    · rw [(h.fresh hnone).2.2.1] at hrow
      exact List.not_mem_nil hrow
  obtain ⟨k, -, -, hcontents⟩ := h.contents_eq hsnap
  refine ⟨k, ?_⟩
  have hedits : seedsIn s.log.committed = ∅ := by
    refine Finset.filter_eq_empty_iff.mpr fun u hu => ?_
    obtain ⟨n, -, rfl⟩ := h.committed u hu
    exact Bool.false_ne_true
  rw [hcontents, seedsIn, Finset.filter_union]
  change seedsIn (seedOf k content) ∪ seedsIn s.log.committed = _
  rw [seedsIn_seedOf, hedits, Finset.union_empty]

/-! ## Steps that lose nothing -/

theorem Whole.opens (h : Whole content s) {ydoc : Finset Update}
    (hi : ∀ room, s.opening i ≠ .opened room) (hsnap : s.log.tables.docSnapshot ≠ none)
    (hydoc : ydoc ⊆ contents s.log.tables) :
    Whole content { s with opening := Function.update s.opening i (.opened ⟨ydoc, []⟩) } := by
  have hne : ∀ {k room}, s.opening k = .opened room → k ≠ i := by
    rintro k room hk rfl
    exact hi room hk
  refine { h with
    fresh := fun hnone => absurd hnone hsnap
    seeded := fun _ => ?_
    seeding := fun j text hj => ?_
    rooms := fun j room hj => ?_
    apart := apart_update h.apart fun _ _ _ _ _ hu => absurd hu List.not_mem_nil
    kept := kept_update h.kept (fun room hroom => absurd hroom (hi room)) fun _ => .inl
    appending := fun j count row hj => ?_ }
  · obtain ⟨k, room, hseed, hk⟩ := h.seeded hsnap
    exact ⟨k, room, hseed, (Function.update_of_ne (hne hk) _ _).trans hk⟩
  · exact h.seeding j text (seeding_update hj)
  · rcases opened_update hj with ⟨-, rfl⟩ | ⟨-, hj'⟩
    · exact sound_open (fun n hn => h.made_stored (hydoc hn)) hydoc
    · exact h.rooms j room hj'
  · obtain ⟨hrow, room, hroom, hrest⟩ := h.appending j count row hj
    exact ⟨hrow, room, (Function.update_of_ne (hne hroom) _ _).trans hroom, hrest⟩

theorem Whole.miss (h : Whole content s) (hi : s.opening i = .closed) :
    Whole content { s with opening := Function.update s.opening i (.seeding content) } := by
  have hof : ∀ {k room}, s.opening k = .opened room →
      Function.update s.opening i (.seeding content) k = .opened room := by
    intro k room hk
    have hki : k ≠ i := by
      rintro rfl
      cases hi.symm.trans hk
    exact (Function.update_of_ne hki _ _).trans hk
  refine { h with
    fresh := fun hnone => ?_
    seeded := fun hsome => ?_
    seeding := fun j text hj => ?_
    rooms := fun j room hj => h.rooms j room (opened_seeding hj)
    apart := fun j k room room' hne hj hk =>
      h.apart j k room room' hne (opened_seeding hj) (opened_seeding hk)
    kept := fun u hu => ?_
    appending := fun j count row hj => ?_ }
  · obtain ⟨hseed, hcommitted, hrows, hnot⟩ := h.fresh hnone
    exact ⟨hseed, hcommitted, hrows, fun j room hj => hnot j room (opened_seeding hj)⟩
  · obtain ⟨k, room, hseed, hk⟩ := h.seeded hsome
    exact ⟨k, room, hseed, hof hk⟩
  · by_cases hji : j = i
    · rw [hji] at hj
      exact (Opening.seeding.inj ((Function.update_self _ _ _).symm.trans hj)).symm
    · exact h.seeding j text ((Function.update_of_ne hji _ _).symm.trans hj)
  · obtain ⟨k, room, hk, hmem⟩ := h.kept u hu
    exact ⟨k, room, hof hk, hmem⟩
  · obtain ⟨hrow, room, hroom, hrest⟩ := h.appending j count row hj
    exact ⟨hrow, room, hof hroom, hrest⟩

theorem Whole.seed_first (h : Whole content s)
    (hnone : s.log.tables.docSnapshot = none) :
    Whole content { s with
      log := { s.log with
        tables := writeSnapshot s.log.tables (seedOf i content) 0
        seed := some (seedOf i content) }
      opening := Function.update s.opening i (.opened ⟨seedOf i content, []⟩) } := by
  obtain ⟨hseed, hcommitted, hrows, hnot⟩ := h.fresh hnone
  have hcontents : contents (writeSnapshot s.log.tables (seedOf i content) 0) =
      seedOf i content := by
    rw [contents_writeSnapshot_zero _ hnone, h.log.contents_eq, hseed, hcommitted]
    simp
  have hwritten : (writeSnapshot s.log.tables (seedOf i content) 0).docSnapshot =
      some ⟨seedOf i content, 0⟩ := rfl
  refine ⟨SharedLog.inv_seed h.log hseed hnone, h.placed.seed hwritten hrows _,
    fun hsome => absurd hsome (Option.some_ne_none _),
    fun _ => ⟨i, _, rfl, Function.update_self _ _ _⟩, fun snap hsnap _ => ⟨i, ?_⟩, h.committed,
    fun row hrow => ?_, fun j text hj => ?_, fun j room hj => ?_, ?_, ?_, fun j count row hj => ?_⟩
  · obtain rfl := Option.some.inj hsnap
    rfl
  · change row ∈ s.log.tables.docUpdate at hrow
    rw [hrows] at hrow
    exact absurd hrow List.not_mem_nil
  · exact h.seeding j text (seeding_update hj)
  · rcases opened_update hj with ⟨-, rfl⟩ | ⟨-, hj'⟩
    · exact sound_open (fun n hn => absurd (eq_seed_of_mem_seedOf hn) (by simp))
        hcontents.superset
    · exact absurd hj' (hnot j room)
  · exact apart_update h.apart fun _ _ _ _ _ hu => absurd hu List.not_mem_nil
  · refine kept_update h.kept (fun room hroom => absurd hroom (hnot i room)) fun u hu => .inr ?_
    exact hcontents.subset hu
  · obtain ⟨-, room, hroom, -⟩ := h.appending j count row hj
    exact absurd hroom (hnot j room)

/-- An empty seed stored over an empty one changes nothing. -/
theorem Whole.seed_empty (h : Whole content s) (hsnap : s.log.tables.docSnapshot ≠ none)
    (hempty : content.length = 0) (hzero : updateIdOrZero s.log.tables.docSnapshot = 0) :
    { s.log with
      tables := writeSnapshot s.log.tables (seedOf i content) 0
      seed := some (seedOf i content) } = s.log := by
  have hseedOf : ∀ k, seedOf k content = ∅ := fun k => if_neg (by omega)
  obtain ⟨snap, hstored⟩ := Option.ne_none_iff_exists'.mp hsnap
  have hid : snap.updateId = 0 := by
    rw [hstored] at hzero
    exact hzero
  obtain ⟨k, hk⟩ := h.zero snap hstored hid
  obtain ⟨k', -, hseed, -⟩ := h.seeded hsnap
  have hsame : snap = ⟨∅, 0⟩ := by
    rw [← hseedOf k, ← hk, ← hid]
  have htables : writeSnapshot s.log.tables ∅ 0 = s.log.tables := by
    rw [writeSnapshot, ← hsame, ← hstored]
  rw [hseedOf i, htables, ← hseedOf k', ← hseed]

theorem Whole.edit (h : Whole content s) {n : Nat} {deps : Finset Update} {room : Room}
    (hi : s.opening i = .opened room) (hdeps : deps ⊆ room.ydoc) (hn : n ∉ s.edits) :
    Whole content { s with
      opening := Function.update s.opening i (.opened (room.apply (.edit n)))
      edits := insert n s.edits
      deps := Function.update s.deps n deps } := by
  have hsound := h.rooms i room hi
  have hnew : .edit n ∉ room.ydoc := fun hmem => hn (hsound.made n hmem)
  have happly := apply_edit hnew
  -- the updates made before keep what they depend on
  have hdependencies : ∀ u : Update, u ≠ .edit n →
      dependencies (Function.update s.deps n deps) u = dependencies s.deps u :=
    fun _ => dependencies_update
  have hother : ∀ j other, s.opening j = .opened other → ∀ u ∈ other.unwritten, u ≠ .edit n := by
    rintro j other hj u hu rfl
    have hother := h.rooms j other hj
    exact hn (hother.made n (hother.unwritten _ hu).1)
  have hold : ∀ j other, s.opening j = .opened other →
      Sound (insert n s.edits) (contents s.log.tables) (Function.update s.deps n deps) other :=
    fun j other hj => (h.rooms j other hj).mono (Finset.subset_insert _ _)
      (Finset.Subset.refl _) (fun u hu => ((h.rooms j other hj).unwritten u hu).2.2)
      fun u hu => hdependencies u (hother j other hj u hu)
  refine { h with
    fresh := fun hnone => absurd hi ((h.fresh hnone).2.2.2 i room)
    seeded := fun hsome => ?_
    committed := fun u hu => ?_
    rows := fun row hrow => ⟨(h.rows row hrow).1, fun u hu => ?_⟩
    seeding := fun j text hj => ?_
    rooms := fun j other hj => ?_
    apart := apart_update h.apart fun j other hji hj u hu => ?_
    kept := kept_update h.kept (fun other hroom => ?_) fun _ => .inl
    appending := fun j count row hj => ?_ }
  · obtain ⟨k, other, hseed, hk⟩ := h.seeded hsome
    obtain ⟨room', hk'⟩ := exists_opened_update hk
    exact ⟨k, room', hseed, hk'⟩
  · obtain ⟨m, hm, heq⟩ := h.committed u hu
    exact ⟨m, Finset.mem_insert_of_mem hm, heq⟩
  · obtain ⟨m, hm, rfl⟩ := h.committed u ((h.rows row hrow).1 hu)
    have hne : Update.edit m ≠ .edit n := fun heq => hn (Update.edit.inj heq ▸ hm)
    exact (hdependencies _ hne).subset.trans ((h.rows row hrow).2 _ hu)
  · exact h.seeding j text (seeding_update hj)
  · rcases opened_update hj with ⟨-, rfl⟩ | ⟨-, hj'⟩
    · exact hsound.apply hnew (fun hmem => hn (h.made_stored hmem)) hdeps
    · exact hold j other hj'
  · rw [happly] at hu
    rcases List.mem_append.mp hu with hmem | hlast
    · exact h.apart i j room other (Ne.symm hji) hi hj u hmem
    · obtain rfl := List.mem_singleton.mp hlast
      exact fun hmem => hother j other hj _ hmem rfl
  · cases hi.symm.trans hroom
    exact subset_apply room _
  · obtain ⟨hrow, other, hother, hpos, hcount, hupdate⟩ := h.appending j count row hj
    refine ⟨hrow, ?_⟩
    by_cases hji : j = i
    · subst hji
      cases hi.symm.trans hother
      refine ⟨_, Function.update_self _ _ _, hpos, ?_, ?_⟩
      · rw [happly, List.length_append]
        exact Nat.le_add_right_of_le hcount
      · rw [happly, List.take_append_of_le_length hcount]
        exact hupdate
    · exact ⟨other, (Function.update_of_ne hji _ _).trans hother, hpos, hcount, hupdate⟩

theorem Whole.append (h : Whole content s) {count : Nat} {room : Room} {row : DocUpdate Update}
    (hi : s.opening i = .opened room) (hpos : 0 < count) (hcount : count ≤ room.unwritten.length)
    (hupdate : row.update = (room.unwritten.take count).toFinset)
    (hid : s.log.nextId ≤ row.id) (hclock : s.log.clock ≤ row.createdAt) :
    Whole content { s with
      log := { s.log with
        inFlight := s.log.inFlight ++ [row], nextId := row.id + 1, clock := row.createdAt }
      appending := Function.update s.appending i (some (count, row)) } := by
  refine { h with
    log := SharedLog.inv_allocate h.log hid hclock
    placed := ⟨h.placed.1, h.placed.2, h.placed.3, h.placed.4, h.placed.5⟩
    appending := fun j count' row' hj => ?_ }
  by_cases hji : j = i
  · subst hji
    change Function.update s.appending j (some (count, row)) j = some (count', row') at hj
    rw [Function.update_self, Option.some.injEq, Prod.mk.injEq] at hj
    obtain ⟨rfl, rfl⟩ := hj
    exact ⟨List.mem_append_right _ (List.mem_singleton_self _), room, hi, hpos, hcount, hupdate⟩
  · obtain ⟨hrow, hrest⟩ :=
      h.appending j count' row' ((Function.update_of_ne hji _ _).symm.trans hj)
    exact ⟨List.mem_append_left _ hrow, hrest⟩

theorem Whole.appended (h : Whole content s) {count : Nat} {room : Room} {row : DocUpdate Update}
    (hi : s.opening i = .opened room) (happending : s.appending i = some (count, row)) :
    Whole content { s with
      log := { s.log with
        tables := appendUpdate s.log.tables row
        inFlight := s.log.inFlight.erase row
        committed := s.log.committed ∪ row.update }
      opening := Function.update s.opening i
        (.opened { room with unwritten := room.unwritten.drop count })
      appending := Function.update s.appending i none } := by
  have hsound := h.rooms i room hi
  obtain ⟨hrow, room', hi', hpos, hcount, hupdate⟩ := h.appending i count row happending
  cases hi.symm.trans hi'
  have hbatch : ∀ u, u ∈ row.update ↔ u ∈ room.unwritten.take count := fun u => by
    rw [hupdate, List.mem_toFinset]
  have hof : ∀ u ∈ row.update, u ∈ room.unwritten := fun u hu =>
    List.mem_of_mem_take ((hbatch u).mp hu)
  have hnew : ∀ u ∈ row.update, u ∉ contents s.log.tables := fun u hu =>
    (hsound.unwritten u (hof u hu)).2.2
  have hne : row.update.Nonempty := by
    obtain ⟨u, hu⟩ := List.exists_mem_of_length_pos
      (show 0 < (room.unwritten.take count).length by rw [List.length_take]; omega)
    exact ⟨u, (hbatch u).mpr hu⟩
  have hcontents : contents (appendUpdate s.log.tables row) =
      contents s.log.tables ∪ row.update :=
    contents_appendUpdate (h.log.above row (List.mem_append_right _ hrow)).1
  have hgrows : contents s.log.tables ⊆ contents (appendUpdate s.log.tables row) :=
    contents_subset_appendUpdate _ _
  have htaken : ∀ u, u ∈ room.unwritten.take count →
      u ∈ contents (appendUpdate s.log.tables row) := fun u hu =>
    hcontents ▸ Finset.mem_union_right _ ((hbatch u).mpr hu)
  have hleft : room.unwritten.take count ++ room.unwritten.drop count = room.unwritten :=
    List.take_append_drop count room.unwritten
  refine ⟨SharedLog.inv_commit h.log hrow, h.placed.commit h.log hne hnew _ _, fun hnone => ?_,
    fun hsome => ?_, h.zero, fun u hu => ?_, fun other hother => ?_, fun j text hj => ?_,
    fun j other hj => ?_, ?_, ?_, fun j count' row' hj => ?_⟩
  · exact absurd hnone (h.docSnapshot_ne_none hi)
  · obtain ⟨k, other, hseed, hk⟩ := h.seeded hsome
    obtain ⟨room', hk'⟩ := exists_opened_update hk
    exact ⟨k, room', hseed, hk'⟩
  · rcases Finset.mem_union.mp hu with hold | hrow'
    · exact h.committed u hold
    · obtain ⟨hydoc, hedit, -⟩ := hsound.unwritten u (hof u hrow')
      cases u with
      | seed r => cases hedit
      | edit n => exact ⟨n, hsound.made n hydoc, rfl⟩
  · rcases List.mem_append.mp hother with hold | hlast
    · obtain ⟨hsub, hdeps⟩ := h.rows other hold
      exact ⟨hsub.trans Finset.subset_union_left, fun u hu => (hdeps u hu).trans hgrows⟩
    · obtain rfl := List.mem_singleton.mp hlast
      refine ⟨Finset.subset_union_right, fun u hu d hd => ?_⟩
      obtain ⟨earlier, later, hsplit⟩ := List.append_of_mem ((hbatch u).mp hu)
      have hsplit' : room.unwritten = earlier ++ u :: (later ++ room.unwritten.drop count) := by
        rw [← List.cons_append, ← List.append_assoc, ← hsplit, hleft]
      rcases hsound.ordered earlier u _ hsplit' d hd with hstored | hearlier
      · exact hgrows hstored
      · exact htaken d (hsplit ▸ List.mem_append_left _ hearlier)
  · exact h.seeding j text (seeding_update hj)
  · change Sound s.edits (contents (appendUpdate s.log.tables row)) s.deps other
    rcases opened_update hj with ⟨-, rfl⟩ | ⟨hji, hj'⟩
    · exact hsound.drop (hupdate ▸ hcontents)
    · refine (h.rooms j other hj').mono (Finset.Subset.refl _) hgrows (fun u hu hmem => ?_)
        fun _ _ => rfl
      rw [hcontents] at hmem
      rcases Finset.mem_union.mp hmem with hstored | hrow'
      · exact ((h.rooms j other hj').unwritten u hu).2.2 hstored
      · exact h.apart j i other room hji hj' hi u hu (hof u hrow')
  · refine apart_update h.apart fun j other hji hj u hu => ?_
    exact h.apart i j room other (Ne.symm hji) hi hj u (List.mem_of_mem_drop hu)
  · refine kept_update h.kept (fun other hroom => ?_) fun u hu => ?_
    · cases hi.symm.trans hroom
      exact Finset.Subset.refl _
    · change u ∈ contents (appendUpdate s.log.tables row) at hu
      rw [hcontents] at hu
      exact (Finset.mem_union.mp hu).imp_right fun hrow' => (hsound.unwritten u (hof u hrow')).1
  · have hji : j ≠ i := by
      rintro rfl
      exact absurd ((Function.update_self _ _ _).symm.trans hj) (Option.some_ne_none _).symm
    obtain ⟨hrow', other, hother, hpos', hcount', hupdate'⟩ :=
      h.appending j count' row' ((Function.update_of_ne hji _ _).symm.trans hj)
    refine ⟨(List.mem_erase_of_ne ?_).mpr hrow', other,
      (Function.update_of_ne hji _ _).trans hother, hpos', hcount', hupdate'⟩
    -- the two rows hold updates of different rooms
    rintro rfl
    obtain ⟨u, hu⟩ := hne
    have hmem : u ∈ other.unwritten.take count' := by
      rw [← List.mem_toFinset, ← hupdate']
      exact hu
    exact h.apart i j room other (Ne.symm hji) hi hother u (hof u hu) (List.mem_of_mem_take hmem)

theorem Whole.compacted (h : Whole content s) {candidate : CompactionCandidate Update}
    {through : Nat} (hmem : candidate ∈ s.log.candidates)
    (hthrough : candidate.throughUpdateId = some through)
    (hcas : candidate.expectedUpdateId = s.log.tables.docSnapshot.map DocSnapshot.updateId) :
    Whole content { s with
      log := { s.log with
        tables := DocStore.compacted s.log.tables (foldCandidate candidate) through } } := by
  obtain ⟨hadvance, hcontents⟩ := SharedLog.contents_compact_won h.log hmem hthrough hcas
  have hsnap : s.log.tables.docSnapshot ≠ none := by
    intro hnone
    obtain ⟨u, hu⟩ := (h.placed.candidates candidate hmem through hthrough).1
    have hstored := (h.log.sound candidate hmem).fold_subset hu
    obtain ⟨hseed, hcommitted, -⟩ := h.fresh hnone
    rw [h.log.contents_eq, hseed, hcommitted] at hstored
    simp at hstored
  refine ⟨SharedLog.inv_compact_won h.log hmem hthrough hcas, h.placed.compacted hmem hthrough,
    fun hnone => absurd hnone (Option.some_ne_none _), fun _ => h.seeded hsnap,
    fun snap hstored hzero => ?_, h.committed, fun row hrow => ?_, h.seeding, fun j room hj => ?_,
    h.apart, ?_, h.appending⟩
  · obtain rfl := Option.some.inj hstored
    change through = 0 at hzero
    rw [hzero] at hadvance
    exact absurd hadvance (Nat.not_lt_zero _)
  · obtain ⟨hsub, hdeps⟩ := h.rows row (List.mem_of_mem_filter hrow)
    exact ⟨hsub, fun u hu => (hdeps u hu).trans hcontents.superset⟩
  · change Sound s.edits (contents (DocStore.compacted s.log.tables _ through)) s.deps room
    rw [hcontents]
    exact h.rooms j room hj
  · change Kept s.opening (contents (DocStore.compacted s.log.tables _ through))
    rw [hcontents]
    exact h.kept

theorem whole_step {e : Event} (h : Whole content s) (hok : Alone content s e)
    (hs : step docId content s e = some s') : Whole content s' := by
  cases took hs with
  | load hi hexists =>
      refine h.opens (fun room hroom => by cases hi.symm.trans hroom) (fun hnone => ?_)
        (Finset.Subset.refl _)
      rcases load_exists_iff.mp hexists with hsome | ⟨row, hrow, -⟩
      · rw [hnone] at hsome
        cases hsome
      · rw [(h.fresh hnone).2.2.1] at hrow
        exact List.not_mem_nil hrow
  | miss hi => exact h.miss hi
  | @seed i text hi =>
      obtain rfl := h.seeding i text hi
      by_cases hnone : s.log.tables.docSnapshot = none
      · exact h.seed_first hnone
      · obtain ⟨hempty, hzero⟩ := hok.resolve_left hnone
        rw [h.seed_empty hnone hempty hzero]
        refine h.opens (fun room hroom => by cases hi.symm.trans hroom) hnone ?_
        rw [seedOf, if_neg (by omega)]
        exact Finset.empty_subset _
  | edit hi hdeps hn => exact h.edit hi hdeps hn
  | append hi _ hpos hcount hupdate hid hclock =>
      exact h.append hi hpos hcount hupdate hid hclock
  | appended hi happending _ => exact h.appended hi happending
  | read hage =>
      exact { h with log := SharedLog.inv_read h.log hage, placed := h.placed.read _ }
  | compacted hmem hthrough hcas => exact h.compacted hmem hthrough hcas
  | refused => exact h

theorem whole_run {events : List Event} (h : Whole content s)
    (hmeets : Meets (step docId content) (Alone content) s events)
    (hs : run (step docId content) s events = some s') : Whole content s' :=
  run_invariant_of_meets (fun _ _ _ hwhole hok hstep => whole_step hwhole hok hstep) h hmeets hs

theorem meets_of_no_seed {events : List Event} (h : ∀ e ∈ events, e.isSeed = false) :
    Meets (step docId content) (Alone content) s events :=
  meets_of_forall fun e he _ => by
    cases e with
    | seed i => exact absurd (h _ he) (by simp [Event.isSeed])
    | _ => exact trivial

/-! ## A seed that replaces something -/

/-- Storing any other seed loses the seed or the edits that are stored. -/
theorem Whole.exists_lost (h : Whole content s) (hi : s.opening i = .seeding content)
    (hnot : ¬ Alone content s (.seed i)) :
    ∃ u ∈ contents s.log.tables,
      u ∉ contents (writeSnapshot s.log.tables (seedOf i content) 0) := by
  rw [Alone, not_or] at hnot
  obtain ⟨hsnap, hover⟩ := hnot
  have hmem : ∀ u, u ∈ contents (writeSnapshot s.log.tables (seedOf i content) 0) →
      u = .seed i ∨ ∃ row ∈ s.log.tables.docUpdate, u ∈ row.update := by
    intro u hu
    rcases mem_contents.mp hu with hseed | ⟨row, hrow, -, hrow'⟩
    · exact .inl (eq_seed_of_mem_seedOf hseed)
    · exact .inr ⟨row, hrow, hrow'⟩
  by_cases hempty : content.length = 0
  · -- what a compaction has folded
    obtain ⟨snap, hstored⟩ := Option.ne_none_iff_exists'.mp hsnap
    have hpos : 0 < snap.updateId := Nat.pos_of_ne_zero fun hzero =>
      hover ⟨hempty, by rw [hstored]; exact hzero⟩
    obtain ⟨u, hu⟩ := h.placed.marked snap hstored hpos
    refine ⟨u, SharedLog.snapshot_subset hstored hu, fun hleft => ?_⟩
    rcases mem_contents.mp hleft with hseed | ⟨row, hrow, -, hrow'⟩
    · have hnone : u ∈ seedOf i content := hseed
      rw [seedOf, if_neg (by omega)] at hnone
      exact Finset.notMem_empty _ hnone
    · exact h.placed.folded snap hstored u hu row hrow hrow'
  · -- the seed of another instance
    obtain ⟨k, room, hk, hcontents⟩ := h.contents_eq hsnap
    have hseed : .seed k ∈ seedOf k content := by
      rw [seedOf, if_pos (Nat.pos_of_ne_zero hempty)]
      exact Finset.mem_singleton_self _
    refine ⟨.seed k, hcontents ▸ Finset.mem_union_left _ hseed, fun hleft => ?_⟩
    rcases hmem _ hleft with heq | ⟨row, hrow, hrow'⟩
    · obtain rfl : k = i := Update.seed.inj heq
      cases hi.symm.trans hk
    · obtain ⟨n, -, heq⟩ := h.committed _ ((h.rows row hrow).1 hrow')
      cases heq

/-- A room holds an update that is neither stored nor on its way. -/
structure Lost (s : State) (k : InstanceId) (room : Room) (u : Update) : Prop where
  opened : s.opening k = .opened room
  made : ∀ n, .edit n ∈ room.ydoc → n ∈ s.edits
  held : u ∈ room.ydoc
  unwritten : u ∉ room.unwritten
  gone : u ∉ contents s.log.tables

section Lost

variable (docId content) {k : InstanceId} {room : Room} {u : Update}

/-- The room waits for its append, which does not bring the update back. -/
theorem Lost.exists_idle (h : Lost s k room u)
    (happending : ∀ count row, s.appending k = some (count, row) →
      row ∈ s.log.inFlight ∧ ∀ v ∈ row.update, v ∈ room.unwritten) :
    ∃ more t room', (∀ e ∈ more, e.isSeed = false) ∧
      run (step docId content) s more = some t ∧ Lost t k room' u ∧ t.appending k = none := by
  cases hbatch : s.appending k with
  | none => exact ⟨[], s, room, nofun, rfl, h, hbatch⟩
  | some batch =>
      obtain ⟨count, row⟩ := batch
      obtain ⟨hrow, hsub⟩ := happending count row hbatch
      have hstep : ∃ t, step docId content s (.appended k) = some t := by
        simp [step, h.opened, hbatch, SharedLog.step, hrow]
      obtain ⟨t, ht⟩ := hstep
      refine ⟨[.appended k], t, { room with unwritten := room.unwritten.drop count },
        by simp [Event.isSeed], run_cons_eq_some.mpr ⟨t, ht, rfl⟩, ?_⟩
      cases took ht with
      | @appended _ count' room' row' hroom hbatch' =>
          cases h.opened.symm.trans hroom
          cases hbatch.symm.trans hbatch'
          refine ⟨⟨Function.update_self _ _ _, h.made, h.held,
            fun hmem => h.unwritten (List.mem_of_mem_drop hmem), fun hmem => ?_⟩,
            Function.update_self _ _ _⟩
          rcases Finset.mem_union.mp (contents_appendUpdate_subset _ _ hmem) with hold | hnew
          · exact h.gone hold
          · exact h.unwritten (hsub u hnew)

/-- The room types one edit after the update that is lost, and flushes. -/
theorem Lost.exists_incomplete (h : Lost s k room u) (hidle : s.appending k = none) :
    ∃ more t, (∀ e ∈ more, e.isSeed = false) ∧ run (step docId content) s more = some t ∧
      ¬ Complete content t := by
  obtain ⟨n, hn⟩ := Infinite.exists_notMem_finset s.edits
  have hnew : .edit n ∉ room.ydoc := fun hmem => hn (h.made n hmem)
  have happly := apply_edit hnew
  generalize hunwritten : (room.apply (.edit n)).unwritten = unwritten
  have hlast : .edit n ∈ unwritten := by
    rw [← hunwritten, happly]
    exact List.mem_append_right _ (List.mem_singleton_self _)
  have hpos : 0 < unwritten.length := List.length_pos_of_mem hlast
  have hnot : u ∉ unwritten := by
    rw [← hunwritten, happly, List.mem_append, List.mem_singleton, not_or]
    exact ⟨h.unwritten, fun heq => hnew (heq ▸ h.held)⟩
  let row : DocUpdate Update := ⟨s.log.nextId, unwritten.toFinset, s.log.clock⟩
  let edited : State := { s with
    opening := Function.update s.opening k (.opened (room.apply (.edit n)))
    edits := insert n s.edits
    deps := Function.update s.deps n {u} }
  let flying : State := { edited with
    log := { s.log with
      inFlight := s.log.inFlight ++ [row], nextId := s.log.nextId + 1, clock := s.log.clock }
    appending := Function.update s.appending k (some (unwritten.length, row)) }
  have hedit : step docId content s (.edit k n {u}) = some edited := by
    simp [step, h.opened, h.held, Cluster.edit, State.cluster, hn, State.set, Cluster.setOpening,
      edited]
  have happend : step docId content edited
      (.append k unwritten.length s.log.nextId s.log.clock) = some flying := by
    have hroom : edited.opening k = .opened (room.apply (.edit n)) := Function.update_self _ _ _
    have hnone : edited.appending k = none := hidle
    simp only [step, hroom, hnone, hunwritten, List.take_length]
    rw [if_pos ⟨hpos, le_rfl⟩]
    simp [SharedLog.step, edited, flying, row]
  have hroom : flying.opening k = .opened (room.apply (.edit n)) := Function.update_self _ _ _
  have hbatch : flying.appending k = some (unwritten.length, row) := Function.update_self _ _ _
  have hrow : row ∈ flying.log.inFlight := List.mem_append_right _ (List.mem_singleton_self _)
  obtain ⟨t, ht⟩ : ∃ t, step docId content flying (.appended k) = some t := by
    simp [step, hroom, hbatch, SharedLog.step, hrow]
  refine ⟨[.edit k n {u}, .append k unwritten.length s.log.nextId s.log.clock, .appended k], t,
    by simp [Event.isSeed], ?_, ?_⟩
  · rw [run_cons, hedit, Option.bind_some, run_cons, happend, Option.bind_some, run_cons, ht]
    rfl
  · cases took ht with
    | @appended _ count' room' row' hroom' hbatch' =>
        cases hbatch.symm.trans hbatch'
        rintro ⟨-, hrows⟩
        rw [rebuild_load] at hrows
        have hdeps := hrows row (List.mem_append_right _ (List.mem_singleton_self _)) (.edit n)
          (List.mem_toFinset.mpr hlast)
        have hself : u ∈ dependencies (Function.update s.deps n {u}) (.edit n) := by
          simp [dependencies]
        rcases Finset.mem_union.mp (contents_appendUpdate_subset _ _ (hdeps hself)) with
          hold | hnew'
        · exact h.gone hold
        · exact hnot (List.mem_toFinset.mp hnew')

end Lost

/-- Whatever follows without a further seed is complete just when the step lost nothing. -/
theorem complete_step {e : Event} (h : Whole content s)
    (hs : step docId content s e = some s') :
    (∀ more t, (∀ e ∈ more, e.isSeed = false) → run (step docId content) s' more = some t →
      Complete content t) ↔ Alone content s e := by
  constructor
  · intro hall
    by_contra hnot
    cases took hs with
    | @seed i text hi =>
        obtain rfl := h.seeding i text hi
        obtain ⟨u, hu, hgone⟩ := h.exists_lost hi hnot
        obtain ⟨k, room, hk, hmem⟩ := h.kept u hu
        have hki : k ≠ i := by
          rintro rfl
          cases hi.symm.trans hk
        have hsound := h.rooms k room hk
        have hlost : Lost { s with
            log := { s.log with
              tables := writeSnapshot s.log.tables (seedOf i text) 0
              seed := some (seedOf i text) }
            opening := Function.update s.opening i (.opened ⟨seedOf i text, []⟩) } k room u :=
          ⟨(Function.update_of_ne hki _ _).trans hk, hsound.made, hmem,
            fun hun => (hsound.unwritten u hun).2.2 hu, hgone⟩
        obtain ⟨more, t, room', hmore, ht, hlost', hidle⟩ :=
          hlost.exists_idle docId text fun count row hbatch => by
            obtain ⟨hrow, other, hother, -, -, hupdate⟩ := h.appending k count row hbatch
            cases hk.symm.trans hother
            refine ⟨hrow, fun v hv => ?_⟩
            rw [hupdate, List.mem_toFinset] at hv
            exact List.mem_of_mem_take hv
        obtain ⟨more', t', hmore', ht', hincomplete⟩ := hlost'.exists_incomplete docId text hidle
        refine hincomplete (hall (more ++ more') t' (fun e he => ?_)
          (run_append_eq_some.mpr ⟨t, ht, ht'⟩))
        exact (List.mem_append.mp he).elim (hmore e) (hmore' e)
    | _ => exact hnot trivial
  · intro hok more t hmore ht
    exact (whole_run (whole_step h hok hs) (meets_of_no_seed hmore) ht).complete

/-! ## Every run -/

/-- Instances that open a document for the first time keep what is stored
complete, whatever they edit, flush and compact from then on, exactly when none
of them stores its seed over another's text or over a compaction's. -/
theorem complete_iff_alone {clock : Int} {events : List Event}
    (h : run (step docId content) (State.init clock) events = some s) :
    (∀ pre u, pre <+: events → run (step docId content) (State.init clock) pre = some u →
        ∀ more t, (∀ e ∈ more, e.isSeed = false) → run (step docId content) u more = some t →
          Complete content t) ↔
      Meets (step docId content) (Alone content) (State.init clock) events := by
  refine forall_prefix_iff_meets_of_invariant
    (fun _ _ _ hwhole hok hstep => whole_step hwhole hok hstep)
    (fun _ _ _ hwhole hstep => complete_step hwhole hstep) (whole_init clock) ?_ h
  exact fun more t hmore ht => (whole_run (whole_init clock) (meets_of_no_seed hmore) ht).complete

/-- A second instance that opens the document after the first has seeded it, and
a third after the second's edit is folded. -/
def laterOpen : List Event :=
  [.load 0, .seed 0, .load 1, .edit 1 5 {.seed 0}, .append 1 1 1 0, .appended 1, .read 1,
    .compact ⟨some {.seed 0}, some 0, [{.edit 5}], some 1⟩ none, .load 2]

theorem complete_iff_alone_later_open :
    ∃ s, run (step "p:f" "text") (State.init 0) laterOpen = some s ∧
      s.log.tables = ⟨some ⟨{.seed 0, .edit 5}, 1⟩, []⟩ ∧
      ∀ more t, (∀ e ∈ more, e.isSeed = false) → run (step "p:f" "text") s more = some t →
        Complete "text" t := by
  have hend : (run (step "p:f" "text") (State.init 0) laterOpen).map (fun s => s.log.tables) =
      some ⟨some ⟨{.seed 0, .edit 5}, 1⟩, []⟩ := by decide
  obtain ⟨s, hs, htables⟩ := Option.map_eq_some_iff.mp hend
  have hmeets : Meets (step "p:f" "text") (Alone "text") (State.init 0) laterOpen := by decide
  exact ⟨s, hs, htables, (complete_iff_alone hs).mpr hmeets laterOpen s (List.prefix_refl _) hs⟩

/-- Both instances find nothing stored before either has seeded. -/
def overlappingOpens : List Event :=
  [.load 0, .load 1, .seed 0, .seed 1, .edit 0 5 {.seed 0}, .append 0 1 1 0, .appended 0]

theorem overlapping_opens_lose_a_seed :
    ∃ s, run (step "p:f" "text") (State.init 0) overlappingOpens = some s ∧
      ¬ Complete "text" s := by
  have hend : (run (step "p:f" "text") (State.init 0) overlappingOpens).map (fun s =>
      (s.log.tables, s.deps 5)) =
        some (⟨some ⟨{.seed 1}, 0⟩, [⟨1, {.edit 5}, 0⟩]⟩, {.seed 0}) := by decide
  obtain ⟨s, hs, heq⟩ := Option.map_eq_some_iff.mp hend
  rw [Prod.mk.injEq] at heq
  obtain ⟨htables, hdeps⟩ := heq
  refine ⟨s, hs, fun hcomplete => ?_⟩
  have hrow := hcomplete.2 ⟨1, {.edit 5}, 0⟩ (by simp [htables]) (.edit 5) (by simp)
  simp only [dependencies, hdeps, htables] at hrow
  exact absurd hrow (by decide)

end CollabIDE.Collab.Seeding
