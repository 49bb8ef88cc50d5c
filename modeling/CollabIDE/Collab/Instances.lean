import CollabIDE.Collab.Updates
import CollabIDE.Persistence.DocStore
import Mathlib.Logic.Function.Basic
/-!
# Instances of one document

Server instances that open one document over one log: the load and the seed of
`createRoom`, the edits of its room and the rows its buffer appends.  A room's
buffer and flush chain are one queue here, and a flush appends any batch from
its front.
-/

namespace CollabIDE.Collab.Instances

open CollabIDE.Persistence CollabIDE.Persistence.DocStore

abbrev InstanceId := Nat

structure Room where
  ydoc : Finset Update
  /-- Applied to the document and in no row yet, in order. -/
  unwritten : List Update

/-- How far an instance's `createRoom` has come. -/
inductive Opening
  | closed
  /-- `load` found nothing, and the seed is not stored yet. -/
  | seeding (content : String)
  | opened (room : Room)

/-- The document of an open room. -/
def Opening.ydoc : Opening → Option (Finset Update)
  | .opened room => some room.ydoc
  | _ => none

structure Cluster where
  tables : Tables Update
  /-- The next id of the log is at least this. -/
  nextId : Nat
  opening : InstanceId → Opening
  /-- The edits made so far. -/
  edits : Finset Nat

/-- `Y.applyUpdate`: an update the document already has fires no event. -/
def Room.apply (room : Room) (u : Update) : Room :=
  if u ∈ room.ydoc then room
  else { ydoc := insert u room.ydoc, unwritten := room.unwritten ++ [u] }

def Cluster.setOpening (s : Cluster) (i : InstanceId) (opening : Opening) : Cluster :=
  { s with opening := Function.update s.opening i opening }

/-- `createRoom` up to its load, and on where the document exists. -/
def Cluster.load (s : Cluster) (i : InstanceId) (content : String) : Option Cluster :=
  match s.opening i with
  | .closed =>
    let loaded := DocStore.load s.tables
    if loaded.exists then some (s.setOpening i (.opened ⟨rebuild loaded, []⟩))
    else some (s.setOpening i (.seeding content))
  | _ => none

/-- `createRoom` from its first insert on; the snapshot is stored before the
buffer is attached. -/
def Cluster.seed (s : Cluster) (i : InstanceId) : Option Cluster :=
  match s.opening i with
  | .seeding content =>
    some { s.setOpening i (.opened ⟨seedOf i content, []⟩) with
      tables := writeSnapshot s.tables (seedOf i content) 0 }
  | _ => none

/-- A new edit by a connection of this instance. -/
def Cluster.edit (s : Cluster) (i : InstanceId) (n : Nat) : Option Cluster :=
  match s.opening i with
  | .opened room =>
    if n ∈ s.edits then none
    else some { s.setOpening i (.opened (room.apply (.edit n))) with edits := insert n s.edits }
  | _ => none

/-- `writeBatch` for a batch of the first `count` updates that are left, as far as its append. -/
def Cluster.flush (s : Cluster) (i : InstanceId) (count id : Nat) (createdAt : Int) :
    Option Cluster :=
  match s.opening i with
  | .opened room =>
    if s.nextId ≤ id ∧ room.unwritten.take count ≠ [] then
      some { s.setOpening i (.opened { room with unwritten := room.unwritten.drop count }) with
        tables := appendUpdate s.tables ⟨id, (room.unwritten.take count).toFinset, createdAt⟩
        nextId := id + 1 }
    else none
  | _ => none

@[simp] theorem mem_apply_ydoc {room : Room} {u v : Update} :
    v ∈ (room.apply u).ydoc ↔ v = u ∨ v ∈ room.ydoc := by
  unfold Room.apply
  split
  · next hmem => exact ⟨Or.inr, fun h => h.elim (fun heq => heq ▸ hmem) id⟩
  · exact Finset.mem_insert

theorem mem_apply_unwritten {room : Room} {u v : Update} (h : v ∈ (room.apply u).unwritten) :
    v = u ∨ v ∈ room.unwritten := by
  unfold Room.apply at h
  split at h
  · exact Or.inr h
  · simpa [or_comm] using h

theorem subset_apply (room : Room) (u : Update) : room.ydoc ⊆ (room.apply u).ydoc :=
  fun _ hv => mem_apply_ydoc.mpr (Or.inr hv)

/-- What is left to write stays part of the document. -/
theorem unwritten_subset_apply {room : Room} {u : Update}
    (h : ∀ v ∈ room.unwritten, v ∈ room.ydoc) :
    ∀ v ∈ (room.apply u).unwritten, v ∈ (room.apply u).ydoc := fun v hv =>
  mem_apply_ydoc.mpr ((mem_apply_unwritten hv).imp_right (h v))

theorem ydoc_eq_some {opening : Opening} {ydoc : Finset Update} (h : opening.ydoc = some ydoc) :
    ∃ room, opening = .opened room ∧ room.ydoc = ydoc := by
  cases opening with
  | opened room => exact ⟨room, rfl, Option.some.inj h⟩
  | _ => cases h

theorem setOpening_self (s : Cluster) (i : InstanceId) (opening : Opening) :
    (s.setOpening i opening).opening i = opening := Function.update_self _ _ _

theorem setOpening_of_ne {i j : InstanceId} (s : Cluster) (opening : Opening) (h : j ≠ i) :
    (s.setOpening i opening).opening j = s.opening j := Function.update_of_ne h _ _

theorem opened_update {opening : InstanceId → Opening} {i j : InstanceId} {room room' : Room}
    (h : Function.update opening i (.opened room') j = .opened room) :
    j = i ∧ room = room' ∨ j ≠ i ∧ opening j = .opened room := by
  by_cases hj : j = i
  · rw [hj, Function.update_self, Opening.opened.injEq] at h
    exact Or.inl ⟨hj, h.symm⟩
  · rw [Function.update_of_ne hj] at h
    exact Or.inr ⟨hj, h⟩

theorem opened_seeding {opening : InstanceId → Opening} {i j : InstanceId} {room : Room}
    {content : String} (h : Function.update opening i (.seeding content) j = .opened room) :
    opening j = .opened room := by
  by_cases hj : j = i
  · rw [hj, Function.update_self] at h
    cases h
  · rwa [Function.update_of_ne hj] at h

/-! ## What each step does -/

variable {s s' : Cluster} {i : InstanceId}

theorem load_eq_some {content : String} (h : s.load i content = some s') :
    s.opening i = .closed ∧
      ((DocStore.load s.tables).exists = true ∧
          s' = s.setOpening i (.opened ⟨contents s.tables, []⟩) ∨
        (DocStore.load s.tables).exists ≠ true ∧ s' = s.setOpening i (.seeding content)) := by
  cases hi : s.opening i <;> simp only [Cluster.load, hi, reduceCtorEq] at h
  refine ⟨rfl, ?_⟩
  rw [rebuild_load] at h
  by_cases hexists : (DocStore.load s.tables).exists = true
  · simp only [if_pos hexists, Option.some.injEq] at h
    exact Or.inl ⟨hexists, h.symm⟩
  · simp only [if_neg hexists, Option.some.injEq] at h
    exact Or.inr ⟨hexists, h.symm⟩

theorem seed_eq_some (h : s.seed i = some s') :
    ∃ content, s.opening i = .seeding content ∧
      s' = { s.setOpening i (.opened ⟨seedOf i content, []⟩) with
        tables := writeSnapshot s.tables (seedOf i content) 0 } := by
  cases hi : s.opening i <;> simp only [Cluster.seed, hi, reduceCtorEq, Option.some.injEq] at h
  next content => exact ⟨content, rfl, h.symm⟩

theorem edit_eq_some {n : Nat} (h : s.edit i n = some s') :
    ∃ room, s.opening i = .opened room ∧ n ∉ s.edits ∧
      s' = { s.setOpening i (.opened (room.apply (.edit n))) with edits := insert n s.edits } := by
  cases hi : s.opening i <;> simp only [Cluster.edit, hi, reduceCtorEq] at h
  next room =>
    simp only [Option.ite_none_left_eq_some, Option.some.injEq] at h
    exact ⟨room, rfl, h.1, h.2.symm⟩

theorem flush_eq_some {count id : Nat} {createdAt : Int}
    (h : s.flush i count id createdAt = some s') :
    ∃ room, s.opening i = .opened room ∧ s.nextId ≤ id ∧
      s' = { s.setOpening i (.opened { room with unwritten := room.unwritten.drop count }) with
        tables := appendUpdate s.tables ⟨id, (room.unwritten.take count).toFinset, createdAt⟩
        nextId := id + 1 } := by
  cases hi : s.opening i <;> simp only [Cluster.flush, hi, reduceCtorEq] at h
  next room =>
    simp only [Option.ite_none_right_eq_some, Option.some.injEq] at h
    exact ⟨room, rfl, h.1.1, h.2.symm⟩

end CollabIDE.Collab.Instances
