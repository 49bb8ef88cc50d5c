import CollabIDE.Collab.Instances
import CollabIDE.Lib.Machine
import Mathlib.Data.Finset.Union
/-!
# Rooms of one document on several instances

The document bus between instances that hold the same document.  A room is
loaded at one moment and subscribed at a later one, and an edit is published at
once but stored with a later flush.  An edit reaches the other rooms when every
open room is subscribed as it is made, or when it is stored before they load;
between the two, it is lost to them for good.
-/

namespace CollabIDE.Collab.Convergence

open CollabIDE.Lib.Machine CollabIDE.Collab.Instances CollabIDE.Persistence.DocStore

structure State where
  cluster : Cluster
  /-- `attachRoomObservers` has run, and the instance is subscribed. -/
  observed : InstanceId → Bool
  /-- Frames Redis has yet to deliver, each with its instance id. -/
  inbox : InstanceId → List (InstanceId × Nat)

def editsIn (ydoc : Finset Update) : Finset Nat :=
  ydoc.biUnion fun
    | .edit n => {n}
    | .seed _ => ∅

/-- No instance has opened the document stored as `t`. -/
def State.init (t : Tables Update) : State :=
  ⟨⟨t, updateIdOrZero t.docSnapshot + 1, fun _ => .closed, editsIn (contents t)⟩,
    fun _ => false, fun _ => []⟩

inductive Event
  | load (i : InstanceId) (content : String)
  | seed (i : InstanceId)
  | observe (i : InstanceId)
  | edit (i : InstanceId) (n : Nat)
  | deliver (i : InstanceId)
  | flush (i : InstanceId) (count id : Nat) (createdAt : Int)

def Event.actor : Event → InstanceId
  | .load i _ | .seed i | .observe i | .edit i _ | .deliver i | .flush i .. => i

/-- `publishDoc`: the frame goes to every subscriber, the sender's own too. -/
def publishDoc (s : State) (i : InstanceId) (n : Nat) : State :=
  { s with inbox := fun k => if s.observed k then s.inbox k ++ [(i, n)] else s.inbox k }

/-- `applyRemoteFrame`; an echo is dropped before the handler is found. -/
def applyRemoteFrame (s : Cluster) (i sender : InstanceId) (n : Nat) : Cluster :=
  if sender = i then s
  else
    match s.opening i with
    | .opened room => s.setOpening i (.opened (room.apply (.edit n)))
    | _ => s

def step (s : State) : Event → Option State
  | .load i content => (s.cluster.load i content).map fun cluster => { s with cluster }
  | .seed i => (s.cluster.seed i).map fun cluster => { s with cluster }
  | .observe i =>
    match s.cluster.opening i with
    | .opened _ =>
      if s.observed i then none else some { s with observed := Function.update s.observed i true }
    | _ => none
  | .edit i n =>
    -- only a connection that has joined edits, after `attachRoomObservers`
    if s.observed i then
      (s.cluster.edit i n).map fun cluster => publishDoc { s with cluster } i n
    else none
  | .deliver i =>
    match s.inbox i with
    | [] => none
    | (sender, n) :: rest =>
      some { s with
        cluster := applyRemoteFrame s.cluster i sender n
        inbox := Function.update s.inbox i rest }
  | .flush i count id createdAt =>
    (s.cluster.flush i count id createdAt).map fun cluster => { s with cluster }

/-- Every open room is subscribed and no frame is in flight. -/
def Settled (s : State) : Prop :=
  ∀ i room, s.cluster.opening i = .opened room → s.observed i = true ∧ s.inbox i = []

/-- The open rooms hold the same updates. -/
def Agree (s : State) : Prop :=
  ∀ i j room room', s.cluster.opening i = .opened room → s.cluster.opening j = .opened room' →
    room.ydoc = room'.ydoc

/-- Nothing is on the wrong side of both channels: a room is loaded when all
that other rooms hold is stored, an edit is made when all open rooms are
subscribed, and no room is open elsewhere when one is seeded with a text. -/
def Timely (s : State) : Event → Prop
  | .load _ _ => (load s.cluster.tables).exists = true →
      ∀ j room, s.cluster.opening j = .opened room → room.ydoc ⊆ contents s.cluster.tables
  | .seed i => ∀ content, s.cluster.opening i = .seeding content →
      ∀ j room, s.cluster.opening j = .opened room → seedOf i content = ∅ ∧ room.ydoc = ∅
  | .edit _ _ => ∀ j room, s.cluster.opening j = .opened room → s.observed j = true
  | _ => True

theorem mem_editsIn {ydoc : Finset Update} {n : Nat} : n ∈ editsIn ydoc ↔ .edit n ∈ ydoc := by
  simp only [editsIn, Finset.mem_biUnion]
  constructor
  · rintro ⟨u, hu, hn⟩
    cases u with
    | edit m => exact Finset.mem_singleton.mp hn ▸ hu
    | seed r => simp at hn
  · exact fun h => ⟨_, h, Finset.mem_singleton_self n⟩

/-! ## What a step does -/

/-- The steps of the instances, one constructor for each way a step can go. -/
inductive Took (s : State) : Event → State → Prop
  | load {i : InstanceId} {content : String} (hi : s.cluster.opening i = .closed)
      (hexists : (load s.cluster.tables).exists = true) :
      Took s (.load i content)
        { s with cluster := s.cluster.setOpening i (.opened ⟨contents s.cluster.tables, []⟩) }
  | miss {i : InstanceId} {content : String} (hi : s.cluster.opening i = .closed)
      (hexists : (load s.cluster.tables).exists ≠ true) :
      Took s (.load i content) { s with cluster := s.cluster.setOpening i (.seeding content) }
  | seed {i : InstanceId} {content : String} (hi : s.cluster.opening i = .seeding content) :
      Took s (.seed i)
        { s with cluster := { s.cluster.setOpening i (.opened ⟨seedOf i content, []⟩) with
          tables := writeSnapshot s.cluster.tables (seedOf i content) 0 } }
  | observe {i : InstanceId} {room : Room} (hi : s.cluster.opening i = .opened room) :
      Took s (.observe i) { s with observed := Function.update s.observed i true }
  | edit {i : InstanceId} {n : Nat} {room : Room} (hobserved : s.observed i = true)
      (hi : s.cluster.opening i = .opened room) (hn : n ∉ s.cluster.edits) :
      Took s (.edit i n) (publishDoc { s with cluster := { s.cluster.setOpening i
        (.opened (room.apply (.edit n))) with edits := insert n s.cluster.edits } } i n)
  | deliver {i sender : InstanceId} {n : Nat} {rest : List (InstanceId × Nat)}
      (hinbox : s.inbox i = (sender, n) :: rest) :
      Took s (.deliver i) { s with
        cluster := applyRemoteFrame s.cluster i sender n
        inbox := Function.update s.inbox i rest }
  | flush {i : InstanceId} {count id : Nat} {createdAt : Int} {room : Room}
      (hi : s.cluster.opening i = .opened room) (hid : s.cluster.nextId ≤ id) :
      Took s (.flush i count id createdAt) { s with cluster := { s.cluster.setOpening i
          (.opened { room with unwritten := room.unwritten.drop count }) with
        tables := appendUpdate s.cluster.tables
          ⟨id, (room.unwritten.take count).toFinset, createdAt⟩
        nextId := id + 1 } }

variable {s s' : State} {i : InstanceId}

theorem took {e : Event} (h : step s e = some s') : Took s e s' := by
  cases e with
  | load i content =>
      simp only [step, Option.map_eq_some_iff] at h
      obtain ⟨cluster, hload, rfl⟩ := h
      obtain ⟨hi, ⟨hexists, rfl⟩ | ⟨hexists, rfl⟩⟩ := load_eq_some hload
      · exact .load hi hexists
      · exact .miss hi hexists
  | seed i =>
      simp only [step, Option.map_eq_some_iff] at h
      obtain ⟨cluster, hseed, rfl⟩ := h
      obtain ⟨content, hi, rfl⟩ := seed_eq_some hseed
      exact .seed hi
  | observe i =>
      cases hi : s.cluster.opening i <;> simp only [step, hi, reduceCtorEq] at h
      simp only [Option.ite_none_left_eq_some, Option.some.injEq] at h
      exact h.2 ▸ .observe hi
  | edit i n =>
      simp only [step, Option.ite_none_right_eq_some, Option.map_eq_some_iff] at h
      obtain ⟨hobserved, cluster, hedit, rfl⟩ := h
      obtain ⟨room, hi, hn, rfl⟩ := edit_eq_some hedit
      exact .edit hobserved hi hn
  | deliver i =>
      rcases hinbox : s.inbox i with - | ⟨⟨sender, n⟩, rest⟩ <;>
        simp only [step, hinbox, reduceCtorEq, Option.some.injEq] at h
      exact h ▸ .deliver hinbox
  | flush i count id createdAt =>
      simp only [step, Option.map_eq_some_iff] at h
      obtain ⟨cluster, hflush, rfl⟩ := h
      obtain ⟨room, hi, hid, rfl⟩ := flush_eq_some hflush
      exact .flush hi hid

/-! ## What holds in every run -/

structure Known (s : State) : Prop where
  watermark_lt : updateIdOrZero s.cluster.tables.docSnapshot < s.cluster.nextId
  exist : ∀ i room, s.cluster.opening i = .opened room → (load s.cluster.tables).exists = true
  unwritten : ∀ i room, s.cluster.opening i = .opened room →
    ∀ u ∈ room.unwritten, u ∈ room.ydoc
  made : ∀ i room, s.cluster.opening i = .opened room →
    ∀ n, .edit n ∈ room.ydoc → n ∈ s.cluster.edits
  made_stored : ∀ n, .edit n ∈ contents s.cluster.tables → n ∈ s.cluster.edits
  sent : ∀ i k n, (k, n) ∈ s.inbox i →
    ∃ room, s.cluster.opening k = .opened room ∧ .edit n ∈ room.ydoc
  seeding_zero : ∀ i content, s.cluster.opening i = .seeding content →
    updateIdOrZero s.cluster.tables.docSnapshot = 0
  seeding_fresh : ∀ i content, s.cluster.opening i = .seeding content →
    .seed i ∉ contents s.cluster.tables ∧
      ∀ j room, s.cluster.opening j = .opened room → .seed i ∉ room.ydoc
  seeding_empty : ∀ i content, s.cluster.opening i = .seeding content →
    contents s.cluster.tables = ∅ ∨ ∃ j room, s.cluster.opening j = .opened room
  observed_open : ∀ i, s.observed i = true → ∃ room, s.cluster.opening i = .opened room
  unobserved : ∀ i, s.observed i = false → s.inbox i = []

theorem known_init (t : Tables Update) : Known (State.init t) where
  watermark_lt := Nat.lt_succ_self _
  exist := fun _ _ h => nomatch h
  unwritten := fun _ _ h => nomatch h
  made := fun _ _ h => nomatch h
  made_stored := fun _ h => mem_editsIn.mpr h
  sent := fun _ _ _ h => nomatch h
  seeding_zero := fun _ _ h => nomatch h
  seeding_fresh := fun _ _ h => nomatch h
  seeding_empty := fun _ _ h => nomatch h
  observed_open := fun _ h => nomatch h
  unobserved := fun _ _ => rfl

/-- The room of one instance is opened, or grows, by what is stored, made or
sent already or comes with the step. -/
theorem known_setRoom (hs : Known s) {room' : Room} {tables : Tables Update} {nextId : Nat}
    {edits : Finset Nat} {inbox : InstanceId → List (InstanceId × Nat)}
    (hwatermark : updateIdOrZero tables.docSnapshot < nextId)
    (hexist : (load tables).exists = true)
    (hunwritten : ∀ u ∈ room'.unwritten, u ∈ room'.ydoc)
    (hgrows : ∀ room, s.cluster.opening i = .opened room → room.ydoc ⊆ room'.ydoc)
    (hmade : ∀ n, .edit n ∈ room'.ydoc → n ∈ edits) (hedits : s.cluster.edits ⊆ edits)
    (hstored : ∀ u ∈ contents tables, u ∈ contents s.cluster.tables ∨ u ∈ room'.ydoc)
    (hsent : ∀ j k n, (k, n) ∈ inbox j → (k, n) ∈ s.inbox j ∨ k = i ∧ .edit n ∈ room'.ydoc)
    (hzero : updateIdOrZero s.cluster.tables.docSnapshot = 0 →
      updateIdOrZero tables.docSnapshot = 0)
    (hseeds : ∀ j, j ≠ i → .seed j ∈ room'.ydoc → .seed j ∈ contents s.cluster.tables ∨
      ∃ room, s.cluster.opening i = .opened room ∧ .seed j ∈ room.ydoc)
    (hinbox : ∀ j, s.observed j = false → inbox j = []) :
    Known ⟨⟨tables, nextId, Function.update s.cluster.opening i (.opened room'), edits⟩,
      s.observed, inbox⟩ := by
  constructor
  case watermark_lt => exact hwatermark
  case exist => exact fun _ _ _ => hexist
  case unwritten =>
    intro j room hj
    have h := hs.unwritten j room
    simp only [Function.update_apply] at hj
    grind
  case made =>
    intro j room hj n hn
    have h := hs.made j room
    simp only [Function.update_apply] at hj
    grind
  case made_stored =>
    intro n hn
    rcases hstored _ hn with hold | hnew
    · exact hedits (hs.made_stored n hold)
    · exact hmade n hnew
  case sent =>
    intro j k n hj
    simp only [Function.update_apply]
    rcases hsent j k n hj with hold | ⟨rfl, hnew⟩
    · obtain ⟨room, hroom, hn⟩ := hs.sent j k n hold
      by_cases hk : k = i
      · subst hk
        exact ⟨room', if_pos rfl, hgrows room hroom hn⟩
      · exact ⟨room, by rwa [if_neg hk], hn⟩
    · exact ⟨room', if_pos rfl, hnew⟩
  case seeding_zero =>
    intro j content hj
    have h := hs.seeding_zero j content
    simp only [Function.update_apply] at hj
    grind
  case seeding_fresh =>
    intro j content hj
    simp only [Function.update_apply] at hj ⊢
    by_cases hji : j = i
    · simp [hji] at hj
    · rw [if_neg hji] at hj
      obtain ⟨hcontents, hrooms⟩ := hs.seeding_fresh j content hj
      have hroom' : .seed j ∉ room'.ydoc := fun hmem =>
        (hseeds j hji hmem).elim hcontents fun ⟨room, hroom, hmem'⟩ => hrooms i room hroom hmem'
      refine ⟨fun hmem => (hstored _ hmem).elim hcontents hroom', fun k room hk => ?_⟩
      have h := hrooms k room
      grind
  case seeding_empty => exact fun _ _ _ => Or.inr ⟨i, room', Function.update_self _ _ _⟩
  case observed_open =>
    intro j hj
    have h := hs.observed_open j hj
    simp only [Function.update_apply]
    grind
  case unobserved => exact hinbox

theorem known_seeding {content : String} (hs : Known s)
    (hexists : (load s.cluster.tables).exists ≠ true) :
    Known { s with cluster := s.cluster.setOpening i (.seeding content) } := by
  have hcontents := contents_of_not_exists hexists
  have hnone : s.cluster.tables.docSnapshot = none := by
    rw [ne_eq, load_exists_iff, not_or, Option.not_isSome_iff_eq_none] at hexists
    exact hexists.1
  have hrooms : ∀ j room, s.cluster.opening j ≠ .opened room := fun j room hj =>
    hexists (hs.exist j room hj)
  have hrooms' : ∀ j room, (s.cluster.setOpening i (.seeding content)).opening j ≠
      .opened room := by
    intro j room
    have h := hrooms j room
    simp only [Cluster.setOpening, Function.update_apply]
    grind
  exact
  { hs with
    exist := fun j room hj => absurd hj (hrooms' j room)
    unwritten := fun j room hj => absurd hj (hrooms' j room)
    made := fun j room hj => absurd hj (hrooms' j room)
    sent := fun j k n hj => by
      obtain ⟨room, hroom, -⟩ := hs.sent j k n hj
      exact absurd hroom (hrooms k room)
    seeding_zero := fun _ _ _ => by simp [Cluster.setOpening, hnone, updateIdOrZero]
    seeding_fresh := fun j _ _ =>
      ⟨by simp [Cluster.setOpening, hcontents], fun k room hk => absurd hk (hrooms' k room)⟩
    seeding_empty := fun _ _ _ => Or.inl hcontents
    observed_open := fun j hj => by
      obtain ⟨room, hroom⟩ := hs.observed_open j hj
      exact absurd hroom (hrooms j room) }

theorem known_receive {rest : List (InstanceId × Nat)} (hs : Known s)
    (hrest : ∀ frame ∈ rest, frame ∈ s.inbox i) :
    Known { s with inbox := Function.update s.inbox i rest } := by
  have hinbox : ∀ j, ∀ frame ∈ Function.update s.inbox i rest j, frame ∈ s.inbox j := by
    intro j frame hframe
    rw [Function.update_apply] at hframe
    split at hframe
    · next hji => exact hji ▸ hrest frame hframe
    · exact hframe
  refine { hs with sent := fun j k n hn => hs.sent j k n (hinbox j _ hn), unobserved := ?_ }
  intro j hj
  refine List.eq_nil_iff_forall_not_mem.mpr fun frame hframe => ?_
  have hold := hinbox j frame hframe
  rw [hs.unobserved j hj] at hold
  cases hold

theorem known_apply {room : Room} {n : Nat} {edits : Finset Nat}
    {inbox : InstanceId → List (InstanceId × Nat)} (hs : Known s)
    (hi : s.cluster.opening i = .opened room) (hn : n ∈ edits) (hedits : s.cluster.edits ⊆ edits)
    (hsent : ∀ j k m, (k, m) ∈ inbox j → (k, m) ∈ s.inbox j ∨ k = i ∧ m = n)
    (hinbox : ∀ j, s.observed j = false → inbox j = []) :
    Known { s with
      cluster := { s.cluster.setOpening i (.opened (room.apply (.edit n))) with edits }
      inbox } := by
  refine known_setRoom hs hs.watermark_lt (hs.exist i room hi) ?_ ?_ ?_ hedits (fun _ => Or.inl)
    ?_ id ?_ hinbox
  · exact unwritten_subset_apply (hs.unwritten i room hi)
  · rintro _ hroom
    cases hi.symm.trans hroom
    exact subset_apply room _
  · intro m hm
    rcases mem_apply_ydoc.mp hm with heq | hold
    · exact Update.edit.inj heq ▸ hn
    · exact hedits (hs.made i room hi m hold)
  · intro j k m hm
    exact (hsent j k m hm).imp_right fun ⟨hk, hmn⟩ =>
      ⟨hk, mem_apply_ydoc.mpr (Or.inl (hmn ▸ rfl))⟩
  · intro j _ hmem
    rcases mem_apply_ydoc.mp hmem with heq | hold
    · cases heq
    · exact Or.inr ⟨room, hi, hold⟩

theorem known_step {e : Event} (hs : Known s) (h : step s e = some s') : Known s' := by
  cases took h with
  | @load i content hi hexists =>
      refine known_setRoom hs hs.watermark_lt hexists (fun _ h => nomatch h) ?_ hs.made_stored
        (Finset.Subset.refl _) (fun _ => Or.inl) (fun _ _ _ => Or.inl) id
        (fun _ _ => Or.inl) hs.unobserved
      simp [hi]
  | miss hi hexists => exact known_seeding hs hexists
  | @seed i content hi =>
      refine known_setRoom hs (Nat.zero_lt_of_lt hs.watermark_lt)
        (load_exists_iff.mpr (Or.inl rfl)) (fun _ h => nomatch h) ?_ ?_ (Finset.Subset.refl _)
        ?_ (fun _ _ _ => Or.inl) (fun _ => rfl) ?_ hs.unobserved
      · simp [hi]
      · exact fun n hn => nomatch eq_seed_of_mem_seedOf hn
      · intro u hu
        exact Finset.mem_union.mp
          (contents_writeSnapshot_subset _ (hs.seeding_zero i content hi) hu)
      · intro j hj hmem
        exact absurd (Update.seed.inj (eq_seed_of_mem_seedOf hmem)) hj
  | @observe i room hi =>
      refine { hs with observed_open := fun j hj => ?_, unobserved := fun j hj => ?_ }
      · have h := hs.observed_open j
        simp only [Function.update_apply] at hj
        grind
      · have h := hs.unobserved j
        simp only [Function.update_apply] at hj
        grind
  | @edit i n room hobserved hi hn =>
      refine known_apply hs hi (Finset.mem_insert_self _ _) (Finset.subset_insert _ _) ?_ ?_
      · intro j k m hm
        by_cases hj : s.observed j = true
        · simpa only [if_pos hj, List.mem_append, List.mem_singleton, Prod.mk.injEq] using hm
        · simp only [if_neg hj] at hm
          exact Or.inl hm
      · intro j hj
        simp only [hj, Bool.false_eq_true, if_false]
        exact hs.unobserved j hj
  | @deliver i sender n rest hinbox =>
      have hecho : Known { s with inbox := Function.update s.inbox i rest } :=
        known_receive hs fun frame hframe => hinbox ▸ List.mem_cons_of_mem _ hframe
      unfold applyRemoteFrame
      split
      · exact hecho
      · cases hi : s.cluster.opening i with
        | opened room =>
            obtain ⟨source, hsource, hn⟩ := hs.sent i sender n (by simp [hinbox])
            exact known_apply (s := { s with inbox := Function.update s.inbox i rest }) hecho hi
              (hs.made sender source hsource n hn) (Finset.Subset.refl _) (fun _ _ _ => Or.inl)
              hecho.unobserved
        | _ => exact hecho
  | @flush i count id createdAt room hi hid =>
      have hlt := hs.watermark_lt.trans_le hid
      refine known_setRoom hs (hlt.trans (Nat.lt_succ_self id)) ?_ ?_ ?_ (hs.made i room hi)
        (Finset.Subset.refl _) ?_ (fun _ _ _ => Or.inl) (fun hzero => hzero) ?_ hs.unobserved
      · exact load_exists_iff.mpr
          (Or.inr ⟨_, List.mem_append_right _ (List.mem_singleton_self _), hlt⟩)
      · exact fun u hu => hs.unwritten i room hi u (List.mem_of_mem_drop hu)
      · rintro _ hroom
        cases hi.symm.trans hroom
        exact Finset.Subset.refl _
      · intro u hu
        rw [contents_appendUpdate hlt, Finset.mem_union, List.mem_toFinset] at hu
        exact hu.imp_right fun hbatch => hs.unwritten i room hi u (List.mem_of_mem_take hbatch)
      · exact fun j _ hmem => Or.inr ⟨room, hi, hmem⟩

theorem inbox_of_not_opened (hs : Known s) (hi : ∀ room, s.cluster.opening i ≠ .opened room) :
    s.inbox i = [] := by
  refine hs.unobserved i (Bool.eq_false_iff.mpr fun hobserved => ?_)
  obtain ⟨room, hroom⟩ := hs.observed_open i hobserved
  exact hi room hroom

/-! ## Timely runs -/

/-- The room of instance `i` has the update, or a frame brings it. -/
def Reaches (s : State) (i : InstanceId) (room : Room) (u : Update) : Prop :=
  u ∈ room.ydoc ∨ ∃ k n, u = .edit n ∧ (k, n) ∈ s.inbox i

/-- Whatever one room holds, or the log, reaches every open room. -/
structure Synced (s : State) : Prop where
  rooms : ∀ i j room room', s.cluster.opening i = .opened room →
    s.cluster.opening j = .opened room' → ∀ u ∈ room'.ydoc, Reaches s i room u
  stored : ∀ i room, s.cluster.opening i = .opened room →
    ∀ u ∈ contents s.cluster.tables, Reaches s i room u

theorem synced_edit {room : Room} {n : Nat} (hs : Synced s)
    (hi : s.cluster.opening i = .opened room)
    (hok : ∀ j room, s.cluster.opening j = .opened room → s.observed j = true) :
    Synced (publishDoc { s with cluster := { s.cluster.setOpening i
      (.opened (room.apply (.edit n))) with edits := insert n s.cluster.edits } } i n) := by
  have hgrows : ∀ j room₁ room₂, s.cluster.opening j = .opened room₁ →
      (s.cluster.setOpening i (.opened (room.apply (.edit n)))).opening j = .opened room₂ →
      (∀ u, Reaches s j room₁ u → Reaches (publishDoc s i n) j room₂ u) ∧
        Reaches (publishDoc s i n) j room₂ (.edit n) := by
    intro j room₁ room₂ hj hj'
    have hsent : (i, n) ∈ (publishDoc s i n).inbox j := by simp [publishDoc, hok j room₁ hj]
    refine ⟨fun u hu => ?_, Or.inr ⟨i, n, rfl, hsent⟩⟩
    rcases hu with hu | ⟨k, m, rfl, hm⟩
    · rcases opened_update hj' with ⟨rfl, rfl⟩ | ⟨-, hj'⟩
      · cases hi.symm.trans hj
        exact Or.inl (mem_apply_ydoc.mpr (Or.inr hu))
      · cases hj.symm.trans hj'
        exact Or.inl hu
    · refine Or.inr ⟨k, m, rfl, ?_⟩
      simp only [publishDoc]
      split
      · exact List.mem_append_left _ hm
      · exact hm
  have hopen : ∀ j room₂,
      (s.cluster.setOpening i (.opened (room.apply (.edit n)))).opening j = .opened room₂ →
      ∃ room₁, s.cluster.opening j = .opened room₁ ∧
        ∀ u ∈ room₂.ydoc, u = .edit n ∨ u ∈ room₁.ydoc := by
    intro j room₂ hj
    rcases opened_update hj with ⟨rfl, rfl⟩ | ⟨-, hj⟩
    · exact ⟨room, hi, fun u hu => mem_apply_ydoc.mp hu⟩
    · exact ⟨room₂, hj, fun u hu => Or.inr hu⟩
  constructor
  · intro j k room₁ room₂ hj hk u hu
    obtain ⟨old, hold, -⟩ := hopen j room₁ hj
    obtain ⟨old', hold', hu'⟩ := hopen k room₂ hk
    obtain ⟨hkeep, hnew⟩ := hgrows j old room₁ hold hj
    rcases hu' u hu with rfl | hmem
    · exact hnew
    · exact hkeep u (hs.rooms j k old old' hold hold' u hmem)
  · intro j room₁ hj u hu
    obtain ⟨old, hold, -⟩ := hopen j room₁ hj
    exact (hgrows j old room₁ hold hj).1 u (hs.stored j old hold u hu)

theorem synced_deliver {sender : InstanceId} {n : Nat} {rest : List (InstanceId × Nat)}
    (hknown : Known s) (hs : Synced s) (hinbox : s.inbox i = (sender, n) :: rest) :
    Synced { s with
      cluster := applyRemoteFrame s.cluster i sender n
      inbox := Function.update s.inbox i rest } := by
  obtain ⟨source, hsource, hsent⟩ := hknown.sent i sender n (by simp [hinbox])
  -- an echo is in the room already, and another frame is applied
  have hopen : ∀ j room', (applyRemoteFrame s.cluster i sender n).opening j = .opened room' →
      ∃ room, s.cluster.opening j = .opened room ∧ room.ydoc ⊆ room'.ydoc ∧
        (∀ u ∈ room'.ydoc, u = .edit n ∨ u ∈ room.ydoc) ∧ (j = i → .edit n ∈ room'.ydoc) := by
    intro j room' hj
    unfold applyRemoteFrame at hj
    split at hj
    · next hecho =>
        refine ⟨room', hj, Finset.Subset.refl _, fun u hu => Or.inr hu, fun hji => ?_⟩
        rw [hji, ← hecho] at hj
        cases hsource.symm.trans hj
        exact hsent
    · cases hi : s.cluster.opening i with
      | opened room =>
          simp only [hi] at hj
          rcases opened_update hj with ⟨rfl, rfl⟩ | ⟨hne, hj⟩
          · exact ⟨room, hi, fun u hu => mem_apply_ydoc.mpr (Or.inr hu),
              fun u hu => mem_apply_ydoc.mp hu, fun _ => mem_apply_ydoc.mpr (Or.inl rfl)⟩
          · exact ⟨room', hj, Finset.Subset.refl _, fun u hu => Or.inr hu, fun h => absurd h hne⟩
      | _ =>
          simp only [hi] at hj
          refine ⟨room', hj, Finset.Subset.refl _, fun u hu => Or.inr hu, fun hji => ?_⟩
          simp [hji, hi] at hj
  have hkeep : ∀ j room room', room.ydoc ⊆ room'.ydoc → (j = i → .edit n ∈ room'.ydoc) →
      ∀ u, Reaches s j room u → Reaches { s with
        cluster := applyRemoteFrame s.cluster i sender n
        inbox := Function.update s.inbox i rest } j room' u := by
    rintro j room room' hsub hnew u (hu | ⟨k, m, rfl, hm⟩)
    · exact Or.inl (hsub hu)
    · by_cases hj : j = i
      · subst hj
        rw [hinbox, List.mem_cons, Prod.mk.injEq] at hm
        rcases hm with ⟨-, rfl⟩ | hm
        · exact Or.inl (hnew rfl)
        · exact Or.inr ⟨k, m, rfl, by simpa using hm⟩
      · exact Or.inr ⟨k, m, rfl, by simpa [Function.update_apply, hj] using hm⟩
  constructor
  · intro j k room₁ room₂ hj hk u hu
    obtain ⟨old, hold, hsub, -, hnew⟩ := hopen j room₁ hj
    obtain ⟨old', hold', -, hfrom, -⟩ := hopen k room₂ hk
    refine hkeep j old room₁ hsub hnew u ?_
    rcases hfrom u hu with rfl | hmem
    · exact hs.rooms j sender old source hold hsource _ hsent
    · exact hs.rooms j k old old' hold hold' u hmem
  · intro j room₁ hj u hu
    obtain ⟨old, hold, hsub, -, hnew⟩ := hopen j room₁ hj
    have hu' : u ∈ contents s.cluster.tables := by
      have htables : (applyRemoteFrame s.cluster i sender n).tables = s.cluster.tables := by
        unfold applyRemoteFrame
        split
        · rfl
        · cases s.cluster.opening i <;> rfl
      rwa [htables] at hu
    exact hkeep j old room₁ hsub hnew u (hs.stored j old hold u hu')

theorem synced_load (hs : Synced s)
    (hok : ∀ j room, s.cluster.opening j = .opened room → room.ydoc ⊆ contents s.cluster.tables) :
    Synced { s with
      cluster := s.cluster.setOpening i (.opened ⟨contents s.cluster.tables, []⟩) } := by
  constructor
  · intro j k room₁ room₂ hj hk u hu
    have hu' : u ∈ contents s.cluster.tables := by
      rcases opened_update hk with ⟨-, rfl⟩ | ⟨-, hk⟩
      · exact hu
      · exact hok k room₂ hk hu
    rcases opened_update hj with ⟨-, rfl⟩ | ⟨-, hj⟩
    · exact Or.inl hu'
    · exact hs.stored j room₁ hj u hu'
  · intro j room₁ hj u hu
    rcases opened_update hj with ⟨-, rfl⟩ | ⟨-, hj⟩
    · exact Or.inl hu
    · exact hs.stored j room₁ hj u hu

/-- A seed is stored while every open room is still empty, if it has a text
while none is open. -/
theorem synced_seed {content : String} (hknown : Known s) (hs : Synced s)
    (hi : s.cluster.opening i = .seeding content)
    (hok : ∀ j room, s.cluster.opening j = .opened room →
      seedOf i content = ∅ ∧ room.ydoc = ∅) :
    Synced { s with cluster := { s.cluster.setOpening i (.opened ⟨seedOf i content, []⟩) with
      tables := writeSnapshot s.cluster.tables (seedOf i content) 0 } } := by
  have hempty : contents s.cluster.tables = ∅ := by
    rcases hknown.seeding_empty i content hi with hempty | ⟨j, room, hj⟩
    · exact hempty
    · refine Finset.eq_empty_of_forall_notMem fun u hu => ?_
      rcases hs.stored j room hj u hu with hmem | ⟨k, n, -, hsent⟩
      · simp [(hok j room hj).2] at hmem
      · obtain ⟨room', hk, hmem⟩ := hknown.sent j k n hsent
        simp [(hok k room' hk).2] at hmem
  have hstored : ∀ u ∈ contents (writeSnapshot s.cluster.tables (seedOf i content) 0),
      u ∈ seedOf i content := by
    intro u hu
    have hu' := contents_writeSnapshot_subset _ (hknown.seeding_zero i content hi) hu
    rwa [hempty, Finset.empty_union] at hu'
  have hrooms : ∀ j room, (s.cluster.setOpening i (.opened ⟨seedOf i content, []⟩)).opening j =
      .opened room → room.ydoc = seedOf i content := by
    intro j room hj
    rcases opened_update hj with ⟨-, rfl⟩ | ⟨-, hj⟩
    · rfl
    · rw [(hok j room hj).2, (hok j room hj).1]
  constructor
  · intro j k room₁ room₂ hj hk u hu
    rw [hrooms k room₂ hk] at hu
    exact Or.inl (by rwa [hrooms j room₁ hj])
  · intro j room₁ hj u hu
    exact Or.inl (by rw [hrooms j room₁ hj]; exact hstored u hu)

theorem synced_flush {room : Room} {count id : Nat} {createdAt : Int} (hknown : Known s)
    (hs : Synced s) (hi : s.cluster.opening i = .opened room) (hid : s.cluster.nextId ≤ id) :
    Synced { s with cluster := { s.cluster.setOpening i
        (.opened { room with unwritten := room.unwritten.drop count }) with
      tables := appendUpdate s.cluster.tables
        ⟨id, (room.unwritten.take count).toFinset, createdAt⟩
      nextId := id + 1 } } := by
  have hopen : ∀ j room', (s.cluster.setOpening i
      (.opened { room with unwritten := room.unwritten.drop count })).opening j = .opened room' →
      ∃ old, s.cluster.opening j = .opened old ∧ room'.ydoc = old.ydoc := by
    intro j room' hj
    rcases opened_update hj with ⟨rfl, rfl⟩ | ⟨-, hj⟩
    · exact ⟨room, hi, rfl⟩
    · exact ⟨room', hj, rfl⟩
  constructor
  · intro j k room₁ room₂ hj hk u hu
    obtain ⟨old, hold, heq⟩ := hopen j room₁ hj
    obtain ⟨old', hold', heq'⟩ := hopen k room₂ hk
    rw [heq'] at hu
    exact (hs.rooms j k old old' hold hold' u hu).imp_left fun hmem => heq ▸ hmem
  · intro j room₁ hj u hu
    obtain ⟨old, hold, heq⟩ := hopen j room₁ hj
    rw [contents_appendUpdate (hknown.watermark_lt.trans_le hid), Finset.mem_union,
      List.mem_toFinset] at hu
    have hreach : Reaches s j old u := by
      rcases hu with hstored | hbatch
      · exact hs.stored j old hold u hstored
      · exact hs.rooms j i old room hold hi u
          (hknown.unwritten i room hi u (List.mem_of_mem_take hbatch))
    exact hreach.imp_left fun hmem => heq ▸ hmem

theorem synced_step {e : Event} (hknown : Known s) (hs : Synced s) (hok : Timely s e)
    (h : step s e = some s') : Synced s' := by
  cases took h with
  | load hi hexists => exact synced_load hs (hok hexists)
  | miss hi hexists =>
      exact ⟨fun j k room₁ room₂ hj hk => hs.rooms j k room₁ room₂ (opened_seeding hj)
        (opened_seeding hk), fun j room₁ hj => hs.stored j room₁ (opened_seeding hj)⟩
  | seed hi => exact synced_seed hknown hs hi (hok _ hi)
  | observe hi => exact ⟨hs.rooms, hs.stored⟩
  | edit hobserved hi hn => exact synced_edit hs hi hok
  | deliver hinbox => exact synced_deliver hknown hs hinbox
  | flush hi hid => exact synced_flush hknown hs hi hid

theorem agree_of_synced (hs : Synced s) (hsettled : Settled s) : Agree s := by
  have hsub : ∀ i j room room', s.cluster.opening i = .opened room →
      s.cluster.opening j = .opened room' → room'.ydoc ⊆ room.ydoc := by
    intro i j room room' hi hj u hu
    rcases hs.rooms i j room room' hi hj u hu with hmem | ⟨k, n, -, hsent⟩
    · exact hmem
    · simp [(hsettled i room hi).2] at hsent
  exact fun i j room room' hi hj =>
    Finset.Subset.antisymm (hsub j i room' room hj hi) (hsub i j room room' hi hj)

/-! ## Late steps -/

/-- The room of instance `i` lacks this update, and no frame will bring it. -/
def Misses (s : State) (i : InstanceId) (u : Update) : Prop :=
  ∃ room, s.cluster.opening i = .opened room ∧ u ∉ room.ydoc ∧
    ∀ n, u = .edit n → n ∈ s.cluster.edits ∧ ∀ k, (k, n) ∉ s.inbox i

def Has (s : State) (i : InstanceId) (u : Update) : Prop :=
  ∃ room, s.cluster.opening i = .opened room ∧ u ∈ room.ydoc

theorem step_opening_of_ne {e : Event} (h : step s e = some s') (hne : i ≠ e.actor) :
    s'.cluster.opening i = s.cluster.opening i := by
  cases took h with
  | observe hi => rfl
  | @deliver j sender n rest hinbox =>
      simp only [applyRemoteFrame]
      split
      · rfl
      · cases s.cluster.opening j with
        | opened room => exact setOpening_of_ne _ _ hne
        | _ => rfl
  | _ => exact setOpening_of_ne _ _ hne

theorem step_opened {e : Event} {room : Room} (h : step s e = some s')
    (hi : s.cluster.opening i = .opened room) :
    ∃ room', s'.cluster.opening i = .opened room' ∧ room.ydoc ⊆ room'.ydoc ∧
      ∀ u ∈ room'.ydoc, u ∈ room.ydoc ∨
        ∃ n, u = .edit n ∧ (n ∉ s.cluster.edits ∨ ∃ k, (k, n) ∈ s.inbox i) := by
  by_cases hne : i = e.actor
  swap
  · exact ⟨room, (step_opening_of_ne h hne).trans hi, Finset.Subset.refl _, fun u => Or.inl⟩
  have happly : ∀ n, (n ∉ s.cluster.edits ∨ ∃ k, (k, n) ∈ s.inbox i) →
      ∀ u ∈ (room.apply (.edit n)).ydoc, u ∈ room.ydoc ∨
        ∃ n, u = .edit n ∧ (n ∉ s.cluster.edits ∨ ∃ k, (k, n) ∈ s.inbox i) := by
    intro n hn u hu
    rcases mem_apply_ydoc.mp hu with rfl | hmem
    · exact Or.inr ⟨n, rfl, hn⟩
    · exact Or.inl hmem
  cases took h with
  | load hclosed hexists | miss hclosed hexists | seed hclosed =>
      obtain rfl := hne
      cases hi.symm.trans hclosed
  | observe hroom => exact ⟨room, hi, Finset.Subset.refl _, fun u => Or.inl⟩
  | @edit j n room' hobserved hroom hn =>
      obtain rfl : i = j := hne
      cases hi.symm.trans hroom
      exact ⟨_, setOpening_self _ _ _, subset_apply room _, happly n (Or.inl hn)⟩
  | @deliver j sender n rest hinbox =>
      obtain rfl : i = j := hne
      simp only [applyRemoteFrame, hi]
      split
      · exact ⟨room, hi, Finset.Subset.refl _, fun u => Or.inl⟩
      · exact ⟨_, setOpening_self _ _ _, subset_apply room _,
          happly n (Or.inr ⟨sender, hinbox ▸ List.mem_cons_self⟩)⟩
  | @flush j count id createdAt room' hroom hid =>
      obtain rfl : i = j := hne
      cases hi.symm.trans hroom
      exact ⟨_, setOpening_self _ _ _, Finset.Subset.refl _, fun u => Or.inl⟩

theorem step_inbox {e : Event} (h : step s e = some s') :
    s.cluster.edits ⊆ s'.cluster.edits ∧
      ∀ k n, (k, n) ∈ s'.inbox i → (k, n) ∈ s.inbox i ∨ n ∉ s.cluster.edits := by
  cases took h with
  | edit hobserved hi hn =>
      refine ⟨Finset.subset_insert _ _, fun k m hm => ?_⟩
      simp only [publishDoc] at hm
      grind
  | @deliver j sender n rest hinbox =>
      refine ⟨?_, fun k m hm => Or.inl ?_⟩
      · unfold applyRemoteFrame
        split
        · exact Finset.Subset.refl _
        · cases s.cluster.opening j <;> exact Finset.Subset.refl _
      · simp only [Function.update_apply] at hm
        grind
  | _ => exact ⟨Finset.Subset.refl _, fun _ _ => Or.inl⟩

theorem has_step {e : Event} {u : Update} (hs : Has s i u) (h : step s e = some s') :
    Has s' i u := by
  obtain ⟨room, hi, hu⟩ := hs
  obtain ⟨room', hi', hsub, -⟩ := step_opened h hi
  exact ⟨room', hi', hsub hu⟩

theorem misses_step {e : Event} {u : Update} (hs : Misses s i u) (h : step s e = some s') :
    Misses s' i u := by
  obtain ⟨room, hi, hu, hlost⟩ := hs
  obtain ⟨room', hi', -, hadded⟩ := step_opened h hi
  obtain ⟨hedits, hsent⟩ := step_inbox (i := i) h
  refine ⟨room', hi', fun hmem => ?_, fun n hn => ⟨hedits (hlost n hn).1, fun k hk => ?_⟩⟩
  · rcases hadded u hmem with hold | ⟨n, hn, hnew | ⟨k, hk⟩⟩
    · exact hu hold
    · exact hnew (hlost n hn).1
    · exact (hlost n hn).2 k hk
  · exact (hsent k n hk).elim ((hlost n hn).2 k) fun hnew => hnew (hlost n hn).1

theorem misses_of_opened {cluster : Cluster} {room : Room} {ydoc : Finset Update} {u : Update}
    {j : InstanceId} (hknown : Known s) (hi : ∀ room, s.cluster.opening i ≠ .opened room)
    (hopened : cluster.opening i = .opened ⟨ydoc, []⟩) (hedits : cluster.edits = s.cluster.edits)
    (hj : s.cluster.opening j = .opened room) (hu : u ∈ room.ydoc) (hmissing : u ∉ ydoc) :
    Misses { s with cluster } i u := by
  refine ⟨_, hopened, hmissing, ?_⟩
  rintro n rfl
  refine ⟨hedits ▸ hknown.made j room hj n hu, fun k hk => ?_⟩
  rw [inbox_of_not_opened hknown hi] at hk
  cases hk

/-- A step that is not timely leaves an update with one room that another room
never gets. -/
theorem misses_of_late {e : Event} (hknown : Known s) (hlate : ¬ Timely s e)
    (h : step s e = some s') : ∃ i j u, Has s' i u ∧ Misses s' j u := by
  cases took h with
  | @load i content hi hexists =>
      simp only [Timely, Classical.not_imp, not_forall] at hlate
      obtain ⟨-, j, room, hj, hsub⟩ := hlate
      obtain ⟨u, hu, hmissing⟩ := Finset.not_subset.mp hsub
      exact ⟨j, i, u, has_step ⟨room, hj, hu⟩ h, misses_of_opened hknown (by simp [hi])
        (setOpening_self _ _ _) rfl hj hu hmissing⟩
  | miss hi hexists => exact absurd (fun h => absurd h hexists) hlate
  | @seed i content hi =>
      simp only [Timely, not_forall] at hlate
      obtain ⟨content', hi', j, room, hj, hnot⟩ := hlate
      obtain rfl : content = content' := Opening.seeding.inj (hi.symm.trans hi')
      have hne : j ≠ i := by
        rintro rfl
        cases hj.symm.trans hi
      by_cases hempty : seedOf i content = ∅
      · obtain ⟨u, hu⟩ := Finset.nonempty_iff_ne_empty.mpr fun h => hnot ⟨hempty, h⟩
        exact ⟨j, i, u, has_step ⟨room, hj, hu⟩ h, misses_of_opened hknown (by simp [hi])
          (setOpening_self _ _ _) rfl hj hu (by simp [hempty])⟩
      · obtain ⟨u, hu⟩ := Finset.nonempty_iff_ne_empty.mpr hempty
        obtain rfl := eq_seed_of_mem_seedOf hu
        exact ⟨i, j, .seed i, ⟨_, setOpening_self _ _ _, hu⟩, room,
          (setOpening_of_ne _ _ hne).trans hj, (hknown.seeding_fresh i content hi).2 j room hj,
          fun _ hn => nomatch hn⟩
  | @edit i n room hobserved hi hn =>
      simp only [Timely, not_forall] at hlate
      obtain ⟨j, room', hj, hunobserved⟩ := hlate
      have hne : j ≠ i := by
        rintro rfl
        exact hunobserved hobserved
      refine ⟨i, j, .edit n, ⟨_, setOpening_self _ _ _, mem_apply_ydoc.mpr (Or.inl rfl)⟩, room',
        (setOpening_of_ne _ _ hne).trans hj, fun hmem => hn (hknown.made j room' hj n hmem), ?_⟩
      rintro m ⟨⟩
      refine ⟨Finset.mem_insert_self _ _, fun k hk => ?_⟩
      simp [publishDoc, hunobserved, hknown.unobserved j (Bool.eq_false_iff.mpr hunobserved)] at hk
  | observe | deliver | flush => exact absurd trivial hlate

theorem not_agree_of_misses {j : InstanceId} {u : Update} (hhas : Has s i u)
    (hmisses : Misses s j u) : ¬ Agree s := by
  obtain ⟨room, hi, hu⟩ := hhas
  obtain ⟨room', hj, hu', -⟩ := hmisses
  exact fun hagree => hu' (hagree i j room room' hi hj ▸ hu)

/-- Runs that end with every open room subscribed and no frame in flight end
with equal rooms exactly when every step was timely. -/
theorem converge_iff_timely (t : Tables Update) {events : List Event}
    (h : run step (State.init t) events = some s) (hsettled : Settled s) :
    Agree s ↔ Meets step Timely (State.init t) events := by
  constructor
  · intro hagree
    by_contra hlate
    obtain ⟨pre, e, post, u, v, -, hpre, hnot, hv, hpost⟩ := exists_step_of_not_meets h hlate
    have hknown : Known u := run_invariant (fun _ _ _ => known_step) (known_init t) hpre
    obtain ⟨i, j, w, hhas, hmisses⟩ := misses_of_late hknown hnot hv
    have hlast : Has s i w ∧ Misses s j w :=
      run_invariant (P := fun s => Has s i w ∧ Misses s j w)
        (fun _ _ _ hs hstep => ⟨has_step hs.1 hstep, misses_step hs.2 hstep⟩)
        ⟨hhas, hmisses⟩ hpost
    exact not_agree_of_misses hlast.1 hlast.2 hagree
  · intro hmeets
    have hs : Known s ∧ Synced s :=
      run_invariant_of_meets (P := fun s => Known s ∧ Synced s) (fun _ _ _ hs hok hstep =>
        ⟨known_step hs.1 hstep, synced_step hs.1 hs.2 hok hstep⟩)
        ⟨known_init t, ⟨fun _ _ _ _ hi => (nomatch hi), fun _ _ hi => (nomatch hi)⟩⟩ hmeets h
    exact agree_of_synced hs.2 hsettled

theorem run_opening_of_ne {events : List Event} (h : run step s events = some s')
    (hne : ∀ e ∈ events, i ≠ e.actor) : s'.cluster.opening i = s.cluster.opening i := by
  induction events generalizing s with
  | nil =>
      cases h
      rfl
  | cons e events ih =>
      obtain ⟨t, ht, hrest⟩ := run_cons_eq_some.mp h
      rw [ih hrest fun e he => hne e (List.mem_cons_of_mem _ he)]
      exact step_opening_of_ne ht (hne e List.mem_cons_self)

theorem settled_of_pair {t : Tables Update} {events : List Event}
    (h : run step (State.init t) events = some s) (hactors : ∀ e ∈ events, e.actor < 2)
    (hzero : s.observed 0 = true ∧ s.inbox 0 = []) (hone : s.observed 1 = true ∧ s.inbox 1 = []) :
    Settled s := by
  intro i room hi
  match i with
  | 0 => exact hzero
  | 1 => exact hone
  | i + 2 =>
      have hclosed := run_opening_of_ne (i := i + 2) h fun e he =>
        Nat.ne_of_gt ((hactors e he).trans_le (Nat.le_add_left 2 i))
      cases hi.symm.trans hclosed

/-- A document that was opened before. -/
def stored : Tables Update := ⟨some ⟨{.seed 9}, 0⟩, []⟩

/-- Both instances load and subscribe before the first edit. -/
def timelyRun : List Event :=
  [.load 0 "", .observe 0, .load 1 "", .observe 1, .edit 0 7, .deliver 1, .deliver 0]

theorem converge_iff_timely_two_instances :
    ∃ s, run step (State.init stored) timelyRun = some s ∧
      (Agree s ↔ Meets step Timely (State.init stored) timelyRun) := by
  obtain ⟨s, hs⟩ := Option.isSome_iff_exists.mp
    (show (run step (State.init stored) timelyRun).isSome = true from by decide)
  have hend : (run step (State.init stored) timelyRun).map (fun s =>
      (s.observed 0, s.inbox 0, s.observed 1, s.inbox 1)) = some (true, [], true, []) := by decide
  simp only [hs, Option.map_some, Option.some.injEq, Prod.mk.injEq] at hend
  obtain ⟨hobserved, hinbox, hobserved', hinbox'⟩ := hend
  exact ⟨s, hs, converge_iff_timely stored hs
    (settled_of_pair hs (by decide) ⟨hobserved, hinbox⟩ ⟨hobserved', hinbox'⟩)⟩

/-- One instance edits between the other's load and its subscription. -/
def lateRun : List Event :=
  [.load 0 "", .observe 0, .load 1 "", .edit 0 7, .observe 1, .deliver 0]

theorem edit_between_load_and_subscribe :
    ¬ ∀ s, run step (State.init stored) lateRun = some s → Settled s → Agree s := by
  intro hall
  obtain ⟨s, hs⟩ := Option.isSome_iff_exists.mp
    (show (run step (State.init stored) lateRun).isSome = true from by decide)
  have hend : (run step (State.init stored) lateRun).map (fun s =>
      (s.observed 0, s.inbox 0, s.observed 1, s.inbox 1)) = some (true, [], true, []) := by decide
  have hrooms : (run step (State.init stored) lateRun).map (fun s =>
      ((s.cluster.opening 0).ydoc, (s.cluster.opening 1).ydoc)) =
        some (some {.seed 9, .edit 7}, some {.seed 9}) := by decide
  simp only [hs, Option.map_some, Option.some.injEq, Prod.mk.injEq] at hend hrooms
  obtain ⟨hobserved, hinbox, hobserved', hinbox'⟩ := hend
  obtain ⟨room, hzero, hydoc⟩ := ydoc_eq_some hrooms.1
  obtain ⟨room', hone, hydoc'⟩ := ydoc_eq_some hrooms.2
  have hsame := hall s hs
    (settled_of_pair hs (by decide) ⟨hobserved, hinbox⟩ ⟨hobserved', hinbox'⟩) 0 1 room room'
    hzero hone
  rw [hydoc, hydoc'] at hsame
  exact absurd hsame (by decide)

end CollabIDE.Collab.Convergence
