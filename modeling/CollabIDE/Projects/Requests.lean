import CollabIDE.Execution.Wire
import CollabIDE.Http.App
import CollabIDE.Projects.Members
import Mathlib.Data.List.Sort
/-!
# Requests about projects

The routes of the projects router over the `Project` and `ProjectMember` rows of
all projects, statement by statement: the guard reads the membership, the body is
parsed, and the service goes on with its own statements.  Any number of requests
run at once.
-/

namespace CollabIDE.Projects.Requests

open CollabIDE.Auth.Authorize CollabIDE.Execution.Wire CollabIDE.Files.Paths
open CollabIDE.Http.Errors CollabIDE.Lib.Machine CollabIDE.Projects.MemberTable
open CollabIDE.Projects.Members (User MemberSummary memberSummary)
open CollabIDE.Http.App (Endpoint projectsRouter)

/-! ## The rows -/

structure Project where
  id : String
  name : String
  ownerId : String
  createdAt : Nat
  updatedAt : Nat
  deriving DecidableEq

/-- The tables, with the primary key of a project and the foreign key of its memberships, which
cascades. -/
structure Database where
  users : List User
  projects : List Project
  members : String → Table
  ids : (projects.map Project.id).Nodup
  memberProject : ∀ projectId, projectId ∉ projects.map Project.id → (members projectId).rows = []

def Database.HasProject (db : Database) (projectId : String) : Prop :=
  projectId ∈ db.projects.map Project.id

instance (db : Database) (projectId : String) : Decidable (db.HasProject projectId) :=
  inferInstanceAs (Decidable (_ ∈ _))

/-- The one membership of a new project. -/
def ownedBy (userId : String) : Table := ⟨[⟨userId, .OWNER⟩], List.nodup_singleton _⟩

def noMembers : Table := ⟨[], List.nodup_nil⟩

/-- `project.create` with its nested membership; `none` is P2002. -/
def create (db : Database) (project : Project) : Option Database :=
  if h : db.HasProject project.id then none
  else some
    { db with
      projects := db.projects ++ [project]
      members := Function.update db.members project.id (ownedBy project.ownerId)
      ids := by
        rw [List.map_append]
        exact db.ids.append (List.nodup_singleton _) (by simpa [Database.HasProject] using h)
      memberProject := by
        intro projectId hnone
        rw [List.map_append, List.mem_append, not_or] at hnone
        rw [Function.update_of_ne (by simpa using hnone.2)]
        exact db.memberProject projectId hnone.1 }

/-- The row with a new name. -/
def Project.rename (project : Project) (name : String) (now : Nat) : Project :=
  { project with name, updatedAt := now }

/-- `project.update` of the name; `none` is P2025. -/
def rename (db : Database) (projectId name : String) (now : Nat) : Option (Project × Database) :=
  have hids : (db.projects.map fun row =>
      if row.id = projectId then row.rename name now else row).map Project.id =
        db.projects.map Project.id := by
    rw [List.map_map]
    refine List.map_congr_left fun row _ => ?_
    by_cases h : row.id = projectId <;> simp [h, Project.rename]
  (db.projects.find? fun row => row.id = projectId).map fun project =>
    (project.rename name now,
      { db with
        projects := db.projects.map fun row =>
          if row.id = projectId then row.rename name now else row
        ids := hids ▸ db.ids
        memberProject := hids ▸ db.memberProject })

/-- `project.delete`, which takes the memberships along; `none` is P2025. -/
def delete (db : Database) (projectId : String) : Option Database :=
  if db.HasProject projectId then some
    { db with
      projects := db.projects.filter fun row => row.id ≠ projectId
      members := Function.update db.members projectId noMembers
      ids := db.ids.sublist (List.filter_sublist.map _)
      memberProject := by
        intro other hnone
        by_cases h : other = projectId
        · rw [h, Function.update_self]
          rfl
        · rw [Function.update_of_ne h]
          refine db.memberProject other fun hmem => hnone ?_
          obtain ⟨row, hrow, rfl⟩ := List.mem_map.mp hmem
          exact List.mem_map_of_mem (List.mem_filter.mpr ⟨hrow, by simpa using h⟩) }
  else none

/-- The memberships of a project written; `none` is P2003, the project of a new row is gone. -/
def setMembers (db : Database) (projectId : String) (members : Table) : Option Database :=
  if h : db.HasProject projectId ∨ members.rows = [] then some
    { db with
      members := Function.update db.members projectId members
      memberProject := by
        intro other hnone
        by_cases heq : other = projectId
        · subst heq
          rw [Function.update_self]
          exact h.resolve_left hnone
        · rw [Function.update_of_ne heq]
          exact db.memberProject other hnone }
  else none

/-! ## Requests -/

/-- What a path and a body ask for. -/
inductive Request
  | createProject (name : String)
  | listProjects
  | getProject (projectId : String)
  | renameProject (projectId name : String)
  | deleteProject (projectId : String)
  | addMember (projectId email role : String)
  | changeMemberRole (projectId userId role : String)
  | removeMember (projectId userId : String)
  deriving DecidableEq

def Request.endpoint : Request → Endpoint
  | .createProject _ => .createProject
  | .listProjects => .listProjects
  | .getProject _ => .getProject
  | .renameProject .. => .renameProject
  | .deleteProject _ => .deleteProject
  | .addMember .. => .addMember
  | .changeMemberRole .. => .changeMemberRole
  | .removeMember .. => .removeMember

/-- `:id`. -/
def Request.projectId : Request → Option String
  | .createProject _ | .listProjects => none
  | .getProject projectId | .renameProject projectId _ | .deleteProject projectId
  | .addMember projectId _ _ | .changeMemberRole projectId _ _ | .removeMember projectId _ =>
    some projectId

/-- The role the route of an endpoint asks for. -/
def minRole (endpoint : Endpoint) : Option Role :=
  ((projectsRouter.find? fun route => route.endpoint = endpoint).bind (·.guard)).map (·.minRole)

def projectNameSchema (value : String) : Option String :=
  let name := trim value
  if 1 ≤ utf16Length name ∧ utf16Length name ≤ 100 then some name else none

def roleSchema (value : String) : Option Role :=
  if value = "OWNER" then some .OWNER
  else if value = "EDITOR" then some .EDITOR
  else if value = "VIEWER" then some .VIEWER
  else none

section

variable (toLowerCase : String → String)

/-- `addMemberSchema`. -/
def addMemberSchema (email role : String) : Option (String × Role) := do
  let email := toLowerCase (trim email)
  let role ← roleSchema role
  if 3 ≤ utf16Length email ∧ utf16Length email ≤ 254 then some (email, role) else none

inductive Response
  | created (project : Project)
  | projects (projects : List (Project × Role))
  | project (project : Project) (members : List MemberSummary) (role : Option Role)
  | renamed (project : Project)
  | member (member : MemberSummary)
  /-- 204. -/
  | ended
  | error (e : AppError)
  deriving DecidableEq

/-- The statement a request is about to issue, with the locals it still needs, or its answer. -/
inductive Stage
  /-- `assertProjectAccess`. -/
  | guarding
  | creating (name : String)
  | listing
  | finding (access : ProjectAccess)
  | findingMembers (access : ProjectAccess) (project : Project)
  | renaming (name : String)
  | deleting
  /-- The row is gone; `disconnectProject` and `deleteDoc` run. -/
  | deleted
  /-- A call of the members service. -/
  | member (call : Members.Call)
  | answered (response : Response)
  deriving DecidableEq

structure Call where
  userId : String
  request : Request
  stage : Stage
  deriving DecidableEq

structure State where
  db : Database
  /-- What `cuid()` has given so far; it is assumed to give no id twice. -/
  issued : List String
  calls : List Call

def start (db : Database) : State := ⟨db, db.projects.map Project.id, []⟩

inductive Event
  | register (user : User)
  /-- `requireAuth` has found the user. -/
  | request (userId : String) (request : Request)
  /-- The next statement of a request; `id` and `now` are what a row it writes gets. -/
  | statement (call : Nat) (id : String) (now : Nat)
  /-- What the request waits for is rejected. -/
  | fails (call : Nat)
  deriving DecidableEq

def invalid : Stage := .answered (.error VALIDATION_ERROR)

/-- A request up to its first statement. -/
def begin : Request → Stage
  | .createProject name => ((projectNameSchema name).map .creating).getD invalid
  | .listProjects => .listing
  | _ => .guarding

/-- A handler behind the guard, up to its first statement. -/
def handler (access : ProjectAccess) : Request → Stage
  | .createProject _ | .listProjects => invalid
  | .getProject _ => .finding access
  | .renameProject _ name => ((projectNameSchema name).map .renaming).getD invalid
  | .deleteProject _ => .deleting
  | .addMember _ email role =>
    ((addMemberSchema toLowerCase email role).map fun (email, role) =>
      .member (.addFindUser email role)).getD invalid
  | .changeMemberRole _ userId role =>
    ((roleSchema role).map fun role => .member (.changeFind userId role)).getD invalid
  | .removeMember _ userId => .member (.removeFind userId access.userId)

/-- A call of the members service, answered once it is settled. -/
def ofMember : Members.Call → Stage
  | .resolved (some summary) => .answered (.member summary)
  | .resolved none => .answered .ended
  | .rejected (.app e) => .answered (.error e)
  | .rejected (.prisma .P2002) => .answered (.error (errorHandler .P2002))
  | .rejected (.prisma .P2025) => .answered (.error (errorHandler .P2025))
  | call => .member call

/-- `projectMember.findMany` of a user, with the projects, the latest first. -/
def listProjects (db : Database) (userId : String) : List (Project × Role) :=
  (db.projects.filterMap fun project =>
    (findUnique (db.members project.id) userId).map fun role => (project, role)).mergeSort
      fun a b => b.1.updatedAt ≤ a.1.updatedAt

/-- `projectMember.findMany` of a project, with the users, the oldest first. -/
def listMembers (db : Database) (projectId : String) : List MemberSummary :=
  (db.members projectId).rows.filterMap fun row =>
    (db.users.find? fun user => user.id = row.userId).map fun user => memberSummary user row.role

/-- The next statement of a request: the rows after it and how the request goes on. -/
def resume (db : Database) (call : Call) (id : String) (now : Nat) : Option (Database × Stage) :=
  match call.stage, call.request.projectId with
  | .creating name, _ =>
    let project : Project := ⟨id, name, call.userId, now, now⟩
    match create db project with
    | some db => some (db, .answered (.created project))
    | none => some (db, .answered (.error (errorHandler .P2002)))
  | .listing, _ => some (db, .answered (.projects (listProjects db call.userId)))
  | .guarding, some projectId =>
    match minRole call.request.endpoint with
    | none => none
    | some role =>
      match assertProjectAccess (db.members projectId) call.userId projectId role with
      | .ok access => some (db, handler toLowerCase access call.request)
      | .error e => some (db, .answered (.error e))
  | .finding access, some projectId =>
    match db.projects.find? fun row => row.id = projectId with
    | some project => some (db, .findingMembers access project)
    | none => some (db, .answered (.error (errorHandler .P2025)))
  | .findingMembers access project, some projectId =>
    some (db, .answered (.project project (listMembers db projectId) access.role))
  | .renaming name, some projectId =>
    match rename db projectId name now with
    | some (project, db) => some (db, .answered (.renamed project))
    | none => some (db, .answered (.error (errorHandler .P2025)))
  | .deleting, some projectId =>
    match delete db projectId with
    | some db => some (db, .deleted)
    | none => some (db, .answered (.error (errorHandler .P2025)))
  | .deleted, some _ => some (db, .answered .ended)
  | .member call, some projectId =>
    (Members.statement db.users (db.members projectId) call).map fun r =>
      match setMembers db projectId r.1 with
      | some db => (db, ofMember r.2)
      | none => (db, .answered (.error (errorHandler .P2003)))
  | _, _ => none

def step (s : State) : Event → Option State
  | .register user =>
    if user.id ∉ s.db.users.map (·.id) ∧ user.email ∉ s.db.users.map (·.email) then
      some { s with db := { s.db with users := s.db.users ++ [user] } }
    else none
  | .request userId request =>
    if userId ∈ s.db.users.map (·.id) then
      some { s with calls := s.calls ++ [⟨userId, request, begin request⟩] }
    else none
  | .statement i id now =>
    if id ∈ s.issued then none
    else
      s.calls[i]?.bind fun call => (resume toLowerCase s.db call id now).map fun r =>
        ⟨r.1, id :: s.issued, s.calls.set i { call with stage := r.2 }⟩
  | .fails i =>
    s.calls[i]?.bind fun call =>
      match call.stage with
      | .answered _ => none
      | _ =>
        some { s with
          calls := s.calls.set i { call with stage := .answered (.error INTERNAL_ERROR) } }

end

end CollabIDE.Projects.Requests
