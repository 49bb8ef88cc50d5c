import Mathlib.Data.List.Basic
import Mathlib.Data.List.Nodup
import Mathlib.Data.List.Perm.Subperm
/-!
# The members of a project

The `ProjectMember` rows of one project.  The unique index on
`(projectId, userId)` is a field of the table, so a table with two rows for one
user cannot be built.  The operations are the single Prisma statements the
service issues, each with the error the database answers.
-/

namespace CollabIDE.Projects.MemberTable

inductive Role
  | VIEWER
  | EDITOR
  | OWNER
  deriving DecidableEq

structure ProjectMember where
  userId : String
  role : Role
  deriving DecidableEq

structure Table where
  rows : List ProjectMember
  unique : (rows.map ProjectMember.userId).Nodup

/-- Prisma's codes for a violated unique index and for a missing row. -/
inductive PrismaError
  | P2002
  | P2025
  deriving DecidableEq

/-- `projectMember.findUnique`, for the role. -/
def findUnique (t : Table) (userId : String) : Option Role :=
  (t.rows.find? fun row => row.userId = userId).map ProjectMember.role

/-- The users with an OWNER row. -/
def owners (t : Table) : List String :=
  (t.rows.filter fun row => row.role = .OWNER).map ProjectMember.userId

/-- `projectMember.count` where role is OWNER. -/
def countOwners (t : Table) : Nat := (owners t).length

/-- `projectMember.create`. -/
def create (t : Table) (userId : String) (role : Role) : Except PrismaError Table :=
  if h : userId ∈ t.rows.map ProjectMember.userId then .error .P2002
  else .ok
    { rows := t.rows ++ [⟨userId, role⟩]
      unique := by
        rw [List.map_append]
        exact List.Nodup.append t.unique (List.nodup_singleton _) (by simpa using h) }

/-- The rows with one user's role replaced. -/
def setRole (t : Table) (userId : String) (role : Role) : Table where
  rows := t.rows.map fun row => if row.userId = userId then { row with role } else row
  unique := by
    have hids : (t.rows.map fun row => if row.userId = userId then { row with role } else row).map
        ProjectMember.userId = t.rows.map ProjectMember.userId := by
      rw [List.map_map]
      refine List.map_congr_left fun row _ => ?_
      by_cases h : row.userId = userId <;> simp [h]
    rw [hids]
    exact t.unique

/-- `projectMember.update`. -/
def update (t : Table) (userId : String) (role : Role) : Except PrismaError Table :=
  if userId ∈ t.rows.map ProjectMember.userId then .ok (setRole t userId role)
  else .error .P2025

/-- The rows without one user's. -/
def erase (t : Table) (userId : String) : Table where
  rows := t.rows.filter fun row => row.userId ≠ userId
  unique := t.unique.sublist (List.filter_sublist.map _)

/-- `projectMember.delete`. -/
def delete (t : Table) (userId : String) : Except PrismaError Table :=
  if userId ∈ t.rows.map ProjectMember.userId then .ok (erase t userId) else .error .P2025

/-! ## Who owns the project after a write -/

theorem nodup_owners (t : Table) : (owners t).Nodup :=
  t.unique.sublist (List.filter_sublist.map _)

@[simp] theorem mem_owners {t : Table} {userId : String} :
    userId ∈ owners t ↔ ⟨userId, .OWNER⟩ ∈ t.rows := by
  simp only [owners, List.mem_map, List.mem_filter, decide_eq_true_eq]
  constructor
  · rintro ⟨row, ⟨hrow, hrole⟩, rfl⟩
    exact hrole ▸ hrow
  · exact fun h => ⟨_, ⟨h, rfl⟩, rfl⟩

theorem mem_owners_iff_findUnique {t : Table} {userId : String} :
    userId ∈ owners t ↔ findUnique t userId = some .OWNER := by
  rw [mem_owners, findUnique, Option.map_eq_some_iff]
  constructor
  · intro h
    have hsome : (t.rows.find? fun row => row.userId = userId).isSome := by
      rw [List.find?_isSome]
      exact ⟨_, h, by simp⟩
    obtain ⟨row, hrow⟩ := Option.isSome_iff_exists.mp hsome
    have hid : row.userId = userId := by simpa using List.find?_some hrow
    have heq : row = ⟨userId, .OWNER⟩ :=
      List.inj_on_of_nodup_map t.unique (List.mem_of_find?_eq_some hrow) h hid
    exact ⟨row, hrow, by rw [heq]⟩
  · rintro ⟨row, hrow, hrole⟩
    have hid : row.userId = userId := by simpa using List.find?_some hrow
    have heq : row = ⟨userId, .OWNER⟩ := by
      rw [← hid, ← hrole]
    exact heq ▸ List.mem_of_find?_eq_some hrow

theorem countOwners_mono {t t' : Table} (h : ∀ u ∈ owners t, u ∈ owners t') :
    countOwners t ≤ countOwners t' :=
  (List.subperm_of_subset (nodup_owners t) h).length_le

/-- A write to one user's row costs the project at most one owner. -/
theorem countOwners_le_succ {t t' : Table} {userId : String}
    (h : ∀ u ∈ owners t, u ≠ userId → u ∈ owners t') :
    countOwners t ≤ countOwners t' + 1 := by
  have hsub : ∀ u ∈ (owners t).erase userId, u ∈ owners t' := fun u hu =>
    h u (List.mem_of_mem_erase hu) ((nodup_owners t).mem_erase_iff.mp hu).1
  have hle := (List.subperm_of_subset ((nodup_owners t).erase userId) hsub).length_le
  have herase : (owners t).length ≤ ((owners t).erase userId).length + 1 := by
    rw [List.length_erase]
    split <;> omega
  unfold countOwners
  omega

theorem mem_owners_create {t t' : Table} {userId u : String} {role : Role}
    (h : create t userId role = .ok t') (hu : u ∈ owners t) : u ∈ owners t' := by
  unfold create at h
  split at h
  · cases h
  · cases h
    rw [mem_owners] at hu ⊢
    exact List.mem_append_left _ hu

theorem mem_owners_setRole {t : Table} {userId u : String} {role : Role}
    (hne : u ≠ userId ∨ role = .OWNER) (hu : u ∈ owners t) :
    u ∈ owners (setRole t userId role) := by
  rw [mem_owners] at hu ⊢
  refine List.mem_map.mpr ⟨_, hu, ?_⟩
  by_cases h : u = userId
  · rw [if_pos h, hne.resolve_left (absurd h)]
  · rw [if_neg h]

theorem mem_owners_erase {t : Table} {userId u : String} (hne : u ≠ userId) (hu : u ∈ owners t) :
    u ∈ owners (erase t userId) := by
  rw [mem_owners] at hu ⊢
  exact List.mem_filter.mpr ⟨hu, by simpa using hne⟩

end CollabIDE.Projects.MemberTable
