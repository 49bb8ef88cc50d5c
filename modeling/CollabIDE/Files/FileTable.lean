import CollabIDE.Files.Paths
/-!
# The `File` table

The rows carry their full path.  The primary key and the unique index on
`(projectId, path)` are fields of the table, so a table that violates one
cannot be built.  The operations are the single Prisma statements of the file
service, each with the error the database answers.
-/

namespace CollabIDE.Files.FileTable

structure File where
  id : String
  projectId : String
  path : String
  content : String
  isDir : Bool
  createdAt : Nat
  updatedAt : Nat
  deriving DecidableEq

/-- The key of `@@unique([projectId, path])`. -/
def File.key (row : File) : String × String := (row.projectId, row.path)

structure Table where
  rows : List File
  ids : (rows.map File.id).Nodup
  keys : (rows.map File.key).Nodup

theorem Table.ext {t u : Table} (h : t.rows = u.rows) : t = u := by
  cases t
  cases u
  cases h
  rfl

instance : DecidableEq Table := fun t u =>
  decidable_of_iff (t.rows = u.rows) ⟨Table.ext, fun h => h ▸ rfl⟩

inductive Index
  | id
  | projectId_path
  deriving DecidableEq

/-- Prisma's codes for a violated unique index, with its target, and for a missing row. -/
inductive PrismaError
  | P2002 (target : Index)
  | P2025
  deriving DecidableEq

/-- `file.findUnique` on the index. -/
def findUnique (t : Table) (projectId path : String) : Option File :=
  t.rows.find? fun row => row.key = (projectId, path)

/-- `file.findFirst` by id, scoped to the project. -/
def findFirst (t : Table) (id projectId : String) : Option File :=
  t.rows.find? fun row => row.id = id ∧ row.projectId = projectId

/-- `file.findMany` of a project. -/
def findMany (t : Table) (projectId : String) : List File :=
  t.rows.filter fun row => row.projectId = projectId

/-- `file.create`. -/
def create (t : Table) (row : File) : Except PrismaError Table :=
  if hid : row.id ∈ t.rows.map File.id then .error (.P2002 .id)
  else if hkey : row.key ∈ t.rows.map File.key then .error (.P2002 .projectId_path)
  else .ok
    { rows := t.rows ++ [row]
      ids := by
        rw [List.map_append]
        exact List.Nodup.append t.ids (List.nodup_singleton _) (by simpa using hid)
      keys := by
        rw [List.map_append]
        exact List.Nodup.append t.keys (List.nodup_singleton _) (by simpa using hkey) }

/-- A row with a new path. -/
def File.setPath (row : File) (path : String) (now : Nat) : File :=
  { row with path, updatedAt := now }

/-- The rows with one row's path replaced. -/
def setPath (rows : List File) (id path : String) (now : Nat) : List File :=
  rows.map fun row => if row.id = id then row.setPath path now else row

theorem map_id_setPath (rows : List File) (id path : String) (now : Nat) :
    (setPath rows id path now).map File.id = rows.map File.id := by
  rw [setPath, List.map_map]
  refine List.map_congr_left fun row _ => ?_
  by_cases h : row.id = id <;> simp [h, File.setPath]

theorem Table.eq_of_id {t : Table} {a b : File} (ha : a ∈ t.rows) (hb : b ∈ t.rows)
    (h : a.id = b.id) : a = b :=
  List.inj_on_of_nodup_map t.ids ha hb h

theorem Table.eq_of_key {t : Table} {a b : File} (ha : a ∈ t.rows) (hb : b ∈ t.rows)
    (h : a.key = b.key) : a = b :=
  List.inj_on_of_nodup_map t.keys ha hb h

/-- No other row of the project has the path a row is to get. -/
def Free (t : Table) (row : File) (path : String) : Prop :=
  ∀ other ∈ t.rows, other.id ≠ row.id → other.key ≠ (row.projectId, path)

instance (t : Table) (row : File) (path : String) : Decidable (Free t row path) :=
  inferInstanceAs (Decidable (∀ other ∈ t.rows, _))

theorem nodup_key_setPath {t : Table} {row : File} {id path : String} (now : Nat)
    (hrow : row ∈ t.rows) (hid : row.id = id) (hfree : Free t row path) :
    ((setPath t.rows id path now).map File.key).Nodup := by
  subst hid
  rw [setPath, List.map_map]
  refine (List.Nodup.of_map _ t.ids).map_on fun a ha b hb hab => ?_
  simp only [Function.comp_apply] at hab
  by_cases hai : a.id = row.id <;> by_cases hbi : b.id = row.id
  · exact Table.eq_of_id ha hb (hai.trans hbi.symm)
  · rw [if_pos hai, if_neg hbi, Table.eq_of_id ha hrow hai] at hab
    exact absurd hab.symm (hfree b hb hbi)
  · rw [if_neg hai, if_pos hbi, Table.eq_of_id hb hrow hbi] at hab
    exact absurd hab (hfree a ha hai)
  · rw [if_neg hai, if_neg hbi] at hab
    exact Table.eq_of_key ha hb hab

/-- `file.update` of the path. -/
def update (t : Table) (id path : String) (now : Nat) : Except PrismaError (File × Table) :=
  match h : t.rows.find? fun row => row.id = id with
  | none => .error .P2025
  | some row =>
    if hfree : Free t row path then
      .ok (row.setPath path now,
        { rows := setPath t.rows id path now
          ids := by rw [map_id_setPath]; exact t.ids
          keys := nodup_key_setPath now (List.mem_of_find?_eq_some h)
            (by simpa using List.find?_some h) hfree })
    else .error (.P2002 .projectId_path)

/-- `file.deleteMany` by ids. -/
def deleteMany (t : Table) (ids : List String) : Table where
  rows := t.rows.filter fun row => row.id ∉ ids
  ids := t.ids.sublist (List.filter_sublist.map _)
  keys := t.keys.sublist (List.filter_sublist.map _)

/-- `file.delete`. -/
def delete (t : Table) (id : String) : Except PrismaError Table :=
  if id ∈ t.rows.map File.id then .ok (deleteMany t [id]) else .error .P2025

/-! ## What the statements answer -/

theorem findUnique_eq_some {t : Table} {projectId path : String} {row : File} :
    findUnique t projectId path = some row ↔
      row ∈ t.rows ∧ row.projectId = projectId ∧ row.path = path := by
  constructor
  · intro h
    have hkey : row.key = (projectId, path) := by simpa using List.find?_some h
    exact ⟨List.mem_of_find?_eq_some h, congrArg Prod.fst hkey, congrArg Prod.snd hkey⟩
  · rintro ⟨hrow, rfl, rfl⟩
    have hsome : (findUnique t row.projectId row.path).isSome := by
      rw [findUnique, List.find?_isSome]
      exact ⟨row, hrow, by simp [File.key]⟩
    obtain ⟨found, hfound⟩ := Option.isSome_iff_exists.mp hsome
    have hkey : found.key = (row.projectId, row.path) := by simpa using List.find?_some hfound
    rw [hfound, Table.eq_of_key (List.mem_of_find?_eq_some hfound) hrow hkey]

theorem findUnique_eq_none {t : Table} {projectId path : String} :
    findUnique t projectId path = none ↔
      ∀ row ∈ t.rows, row.projectId = projectId → row.path ≠ path := by
  simp [findUnique, File.key]

theorem findFirst_eq_some {t : Table} {id projectId : String} {row : File}
    (h : findFirst t id projectId = some row) :
    row ∈ t.rows ∧ row.id = id ∧ row.projectId = projectId := by
  have hrow : row.id = id ∧ row.projectId = projectId := by simpa using List.find?_some h
  exact ⟨List.mem_of_find?_eq_some h, hrow⟩

@[simp] theorem mem_findMany {t : Table} {projectId : String} {row : File} :
    row ∈ findMany t projectId ↔ row ∈ t.rows ∧ row.projectId = projectId := by
  simp [findMany]

theorem create_eq_ok {t u : Table} {row : File} :
    create t row = .ok u ↔
      u.rows = t.rows ++ [row] ∧ row.id ∉ t.rows.map File.id ∧ row.key ∉ t.rows.map File.key := by
  unfold create
  split_ifs with hid hkey
  · simp [hid]
  · simp [hkey]
  · constructor
    · rintro ⟨⟩
      exact ⟨rfl, hid, hkey⟩
    · exact fun h => congrArg _ (Table.ext h.1.symm)

theorem create_ne_path {t : Table} (row : File)
    (h : ∀ other ∈ t.rows, other.projectId = row.projectId → other.path ≠ row.path) :
    create t row ≠ .error (.P2002 .projectId_path) := by
  have hkey : row.key ∉ t.rows.map File.key := by
    rintro hmem
    obtain ⟨other, hother, heq⟩ := List.mem_map.mp hmem
    exact h other hother (congrArg Prod.fst heq) (congrArg Prod.snd heq)
  unfold create
  split_ifs <;> simp

theorem update_eq_ok {t u : Table} {id path : String} {now : Nat} {row' : File} :
    update t id path now = .ok (row', u) ↔
      ∃ row ∈ t.rows, row.id = id ∧ Free t row path ∧ row' = row.setPath path now ∧
        u.rows = setPath t.rows id path now := by
  unfold update
  split
  · next h =>
      constructor
      · rintro ⟨⟩
      · rintro ⟨row, hrow, rfl, -⟩
        simpa using List.find?_eq_none.mp h row hrow
  · next found h =>
      have hid : found.id = id := by simpa using List.find?_some h
      have hmem := List.mem_of_find?_eq_some h
      split_ifs with hfree
      · constructor
        · rintro ⟨⟩
          exact ⟨found, hmem, hid, hfree, rfl, rfl⟩
        · rintro ⟨row, hrow, hrid, -, rfl, hu⟩
          have heq := Table.eq_of_id hrow hmem (hrid.trans hid.symm)
          subst heq
          exact congrArg _ (Prod.ext rfl (Table.ext hu.symm))
      · constructor
        · rintro ⟨⟩
        · rintro ⟨row, hrow, hrid, hfree', -⟩
          have heq := Table.eq_of_id hrow hmem (hrid.trans hid.symm)
          exact absurd (heq ▸ hfree') hfree

theorem delete_eq_ok {t u : Table} {id : String} :
    delete t id = .ok u ↔ id ∈ t.rows.map File.id ∧ u = deleteMany t [id] := by
  unfold delete
  split_ifs with h <;> simp [h, eq_comm]

end CollabIDE.Files.FileTable
