import CollabIDE.Collab.WsServer
import CollabIDE.Files.FileTable
import CollabIDE.Persistence.DocStore
/-!
# Requests that name a project

The way of a request through `buildApp`: the body parser, `originCheck`, the
routers in the order they are mounted, `requireAuth` and the guard of each
route; beside it the way of an upgrade to the room of a document.  What a handler
does once its guard has let the request through is a parameter, and so is what
`handleConnection` does from `joinRoom` on.
-/

namespace CollabIDE.Http.App

open CollabIDE.Auth.Authorize CollabIDE.Collab.WsServer CollabIDE.Http.Errors
open CollabIDE.Projects.MemberTable CollabIDE.Shared.Protocol

/-! ## The state of a server -/

structure ProjectRow where
  id : String
  name : String
  ownerId : String

structure Database where
  users : List AuthedUser
  projects : List ProjectRow
  /-- The members of each project. -/
  members : String → Table
  files : Files.FileTable.Table
  /-- What is stored under each doc id. -/
  documents : String → Persistence.DocStore.Tables (List UInt8)

/-- The database, and what the process holds in memory: rooms, runs, the bus. -/
structure Server (M : Type) where
  db : Database
  memory : M

/-- Equal but for the existence, the files, the documents and the members of
one project. -/
structure AgreeExcept (projectId : String) (s t : Database) : Prop where
  users : s.users = t.users
  projects : ∀ row, row.id ≠ projectId → (row ∈ s.projects ↔ row ∈ t.projects)
  members : ∀ id, id ≠ projectId → s.members id = t.members id
  files : ∀ row, row.projectId ≠ projectId → (row ∈ s.files.rows ↔ row ∈ t.files.rows)
  documents : ∀ docId, (∀ ref, parseDocId docId = some ref → ref.projectId ≠ projectId) →
    s.documents docId = t.documents docId

/-! ## Requests and routes -/

inductive Method
  | GET
  | HEAD
  | POST
  | PUT
  | PATCH
  | DELETE
  | OPTIONS
  | other (name : String)
  deriving DecidableEq

/-- A segment of a path; `decoded` is `none` where `decodeURIComponent` throws. -/
structure Segment where
  raw : String
  decoded : Option String

structure Request (β : Type) where
  method : Method
  /-- The path, without the slash it may end with. -/
  path : List Segment
  origin : Option String
  /-- The session cookie, if it is a string. -/
  token : Option String
  /-- `none` where `express.json` throws. -/
  body : Option β

inductive Response (ρ : Type)
  | error (e : AppError)
  /-- What a handler, or Express itself for OPTIONS, answers. -/
  | answer (content : ρ)

inductive Endpoint
  | createProject
  | listProjects
  | getProject
  | renameProject
  | deleteProject
  | addMember
  | changeMemberRole
  | removeMember
  | listTree
  | readFile
  | createFile
  | moveFile
  | deleteFile
  | startRun
  | streamRun
  deriving DecidableEq

inductive Pattern
  | literal (name : String)
  | param (name : String)

/-- `requireProjectRole(minRole, param)`. -/
structure Guard where
  minRole : Role
  param : String

structure Route where
  method : Method
  pattern : List Pattern
  guard : Option Guard
  endpoint : Endpoint

def filesRouter : List Route :=
  [⟨.GET, [], some ⟨.VIEWER, "projectId"⟩, .listTree⟩,
    ⟨.GET, [.param "fileId"], some ⟨.VIEWER, "projectId"⟩, .readFile⟩,
    ⟨.POST, [], some ⟨.EDITOR, "projectId"⟩, .createFile⟩,
    ⟨.PATCH, [.param "fileId"], some ⟨.EDITOR, "projectId"⟩, .moveFile⟩,
    ⟨.DELETE, [.param "fileId"], some ⟨.EDITOR, "projectId"⟩, .deleteFile⟩]

def executionRouter : List Route :=
  [⟨.POST, [.literal "run"], some ⟨.EDITOR, "projectId"⟩, .startRun⟩,
    ⟨.GET, [.literal "runs", .param "jobId", .literal "stream"], some ⟨.EDITOR, "projectId"⟩,
      .streamRun⟩]

def projectsRouter : List Route :=
  [⟨.POST, [], none, .createProject⟩,
    ⟨.GET, [], none, .listProjects⟩,
    ⟨.GET, [.param "id"], some ⟨.VIEWER, "id"⟩, .getProject⟩,
    ⟨.PATCH, [.param "id"], some ⟨.OWNER, "id"⟩, .renameProject⟩,
    ⟨.DELETE, [.param "id"], some ⟨.OWNER, "id"⟩, .deleteProject⟩,
    ⟨.POST, [.param "id", .literal "members"], some ⟨.OWNER, "id"⟩, .addMember⟩,
    ⟨.PATCH, [.param "id", .literal "members", .param "userId"], some ⟨.OWNER, "id"⟩,
      .changeMemberRole⟩,
    ⟨.DELETE, [.param "id", .literal "members", .param "userId"], some ⟨.OWNER, "id"⟩,
      .removeMember⟩]

/-- The routers that take a path of a project, in the order they are mounted. -/
def mounts : List (List Pattern × List Route) :=
  [([.literal "api", .literal "projects", .param "projectId", .literal "files"], filesRouter),
    ([.literal "api", .literal "projects", .param "projectId"], executionRouter),
    ([.literal "api", .literal "projects"], projectsRouter)]

abbrev Params := List (String × String)

/-- A pattern against the front of a path: what follows it, and the parameters,
`none` where one does not decode. -/
def matchPath : List Pattern → List Segment → Option (List Segment × Option Params)
  | [], path => some (path, some [])
  | .literal name :: pattern, segment :: path =>
    if segment.raw.toLower = name then matchPath pattern path else none
  | .param name :: pattern, segment :: path =>
    if segment.raw = "" then none
    else (matchPath pattern path).map fun matched =>
      (matched.1, do
        let value ← segment.decoded
        let params ← matched.2
        some ((name, value) :: params))
  | _ :: _, [] => none

def UNAUTHENTICATED : AppError := ⟨401, "UNAUTHENTICATED", "Authentication required"⟩
def BAD_ORIGIN : AppError := ⟨403, "BAD_ORIGIN", "Request origin is not allowed"⟩

def MUTATING_METHODS : List Method := [.POST, .PUT, .PATCH, .DELETE]

/-- What a request takes from the server's state and leaves behind. -/
abbrev Effect (M ρ : Type) := Server M × Response ρ

/-- The handlers, and what Express answers to OPTIONS. -/
structure Handlers (M β ρ : Type) where
  handle : Endpoint → Server M → AuthedUser → Params → Option β → Option ProjectAccess → Effect M ρ
  options : Request β → ρ

section Dispatch

variable {M β ρ δ : Type} (platform : Platform δ) (handlers : Handlers M β ρ)

def findUser (users : List AuthedUser) (userId : String) : Option AuthedUser :=
  users.find? fun user => user.id = userId

/-- `requireAuth`. -/
def requireAuth (users : List AuthedUser) (token : Option String) : Option AuthedUser :=
  match token with
  | none => none
  | some token =>
    if token = "" then none
    else
      match verifyToken platform token with
      | .error _ => none
      | .ok claims => findUser users claims.userId

/-- `requireProjectRole`, then the handler. -/
def guarded (s : Server M) (user : AuthedUser) (params : Params) (body : Option β)
    (endpoint : Endpoint) : Option Guard → Effect M ρ
  | none => handlers.handle endpoint s user params body none
  | some guard =>
    match params.lookup guard.param with
    | none => (s, .error notFound)
    | some projectId =>
      if projectId = "" then (s, .error notFound)
      else
        match assertProjectAccess (s.db.members projectId) user.id projectId guard.minRole with
        | .error e => (s, .error e)
        | .ok access => handlers.handle endpoint s user params body (some access)

def Route.accepts (route : Route) (method : Method) : Bool :=
  method = route.method ∨ method = .HEAD ∧ route.method = .GET

/-- The routes of a router in order; `none` if it has no route for the request. -/
def dispatch (s : Server M) (user : AuthedUser) (request : Request β) (params : Params)
    (path : List Segment) : List Route → Option (Effect M ρ)
  | [] => none
  | route :: routes =>
    match matchPath route.pattern path with
    | some ([], none) => some (s, .error INTERNAL_ERROR)
    | some ([], some own) =>
      if route.accepts request.method then
        some (guarded handlers s user (params ++ own) request.body route.endpoint route.guard)
      else dispatch s user request params path routes
    | _ => dispatch s user request params path routes

/-- The routers in order, then `notFoundHandler`. -/
def route (s : Server M) (request : Request β) :
    List (List Pattern × List Route) → Effect M ρ
  | [] =>
    if request.method = .OPTIONS then (s, .answer (handlers.options request))
    else (s, .error routeNotFound)
  | (mount, router) :: mounts =>
    match matchPath mount request.path with
    | none => route s request mounts
    | some (_, none) => (s, .error INTERNAL_ERROR)
    | some (path, some params) =>
      match requireAuth platform s.db.users request.token with
      | none => (s, .error UNAUTHENTICATED)
      | some user =>
        (dispatch handlers s user request params path router).getD (route s request mounts)

/-- `buildApp`, for a path under the mounts. -/
def handle (s : Server M) (request : Request β) : Effect M ρ :=
  if request.body.isNone then (s, .error INTERNAL_ERROR)
  else if request.method ∈ MUTATING_METHODS ∧ request.origin.any (· ≠ platform.webOrigin) then
    (s, .error BAD_ORIGIN)
  else route platform handlers s request mounts

end Dispatch

/-! ## Upgrades -/

section Upgrade

variable {M δ : Type} (platform : Platform δ) (joinRoom : Server M → DocRef → Server M × Join δ)
variable (awareness : Server M → DocRef → List Client)

/-- The calls of an upgrade, answered by the database and by `joinRoom`. -/
def calls (s : Server M) : Calls δ where
  findUser userId := .ok (findUser s.db.users userId)
  findMember userId projectId := .ok (findUnique (s.db.members projectId) userId)
  join doc := (joinRoom s doc).2
  awareness := awareness s

/-- The document whose room `handleConnection` joins. -/
def admitted (calls : Calls δ) (request : Collab.WsServer.Request) : Option DocRef :=
  match platform.newURL (request.url.getD "") with
  | .error _ => none
  | .ok url =>
    if url.pathname ≠ WS_PATH ∨ platform.handleUpgrade request = false then none
    else
      match handshake platform calls request with
      | .ok (.inr (user, doc)) =>
        match assertAccess calls user.id doc.projectId .VIEWER with
        | .ok _ => some doc
        | .error _ => none
      | _ => none

/-- An upgrade: where it ends, and the server after it. -/
def connect (s : Server M) (request : Collab.WsServer.Request) : Server M × Outcome δ :=
  ((admitted platform (calls joinRoom awareness s) request).elim s fun doc => (joinRoom s doc).1,
    onUpgrade platform (calls joinRoom awareness s) request)

end Upgrade

/-! ## What a stranger is told -/

/-- The same answer from every server with these users in which the user is no
member of the project, and no change to any of them. -/
def Blind {M α : Type} (users : List AuthedUser) (projectId userId : String)
    (f : Server M → Server M × α) : Prop :=
  ∃ answer, ∀ s, s.db.users = users → findUnique (s.db.members projectId) userId = none →
    f s = (s, answer)

section Privacy

variable {M β ρ δ α : Type} {platform : Platform δ} {handlers : Handlers M β ρ}
variable {users : List AuthedUser} {projectId userId : String}

theorem blind_const (answer : α) :
    Blind users projectId userId fun s : Server M => (s, answer) := ⟨answer, fun _ _ _ => rfl⟩

theorem blind_guarded {params : Params} {guard : Guard} (user : AuthedUser)
    (hid : user.id = userId) (hparam : params.lookup guard.param = some projectId)
    (body : Option β) (endpoint : Endpoint) :
    Blind users projectId userId fun s =>
      guarded handlers s user params body endpoint (some guard) := by
  refine ⟨.error notFound, fun s _ hmember => ?_⟩
  simp only [guarded, hparam, assertProjectAccess, hid, hmember]
  split <;> rfl

/-- Every route of a router that takes this path is guarded by this project. -/
def Guards (projectId : String) (params : Params) (path : List Segment) (router : List Route) :
    Prop :=
  ∀ route ∈ router, ∀ own, matchPath route.pattern path = some ([], some own) →
    ∃ guard, route.guard = some guard ∧ (params ++ own).lookup guard.param = some projectId

theorem dispatch_blind (handlers : Handlers M β ρ) (request : Request β) {params : Params}
    {path : List Segment} {router : List Route} (user : AuthedUser) (hid : user.id = userId)
    (hguards : Guards projectId params path router)
    {other : Server M → Effect M ρ} (hother : Blind users projectId userId other) :
    Blind users projectId userId fun s =>
      (dispatch handlers s user request params path router).getD (other s) := by
  induction router with
  | nil => exact hother
  | cons route routes ih =>
      have hrest := ih fun r hr => hguards r (List.mem_cons_of_mem _ hr)
      unfold dispatch
      split
      · exact blind_const (Response.error INTERNAL_ERROR)
      · next own hmatch =>
        by_cases haccepts : route.accepts request.method = true
        · obtain ⟨guard, hguard, hparam⟩ := hguards route List.mem_cons_self own hmatch
          simp only [if_pos haccepts, Option.getD_some, hguard]
          exact blind_guarded user hid hparam request.body route.endpoint
        · simp only [if_neg haccepts]
          exact hrest
      · exact hrest

theorem Blind.congr {f g : Server M → Server M × α}
    (h : ∀ s, s.db.users = users → f s = g s) (hg : Blind users projectId userId g) :
    Blind users projectId userId f := by
  obtain ⟨answer, hanswer⟩ := hg
  exact ⟨answer, fun s hs hmember => (h s hs).trans (hanswer s hs hmember)⟩

theorem route_blind {request : Request β} {mounts : List (List Pattern × List Route)}
    (hby : ∀ user, requireAuth platform users request.token = some user → user.id = userId)
    (hguards : ∀ entry ∈ mounts, ∀ path params, matchPath entry.1 request.path =
      some (path, some params) → Guards projectId params path entry.2) :
    Blind users projectId userId fun s : Server M =>
      route platform handlers s request mounts := by
  induction mounts with
  | nil =>
      unfold route
      split
      · exact blind_const _
      · exact blind_const _
  | cons entry mounts ih =>
      have hrest := ih fun e he => hguards e (List.mem_cons_of_mem _ he)
      obtain ⟨mount, router⟩ := entry
      unfold route
      split
      · exact hrest
      · exact blind_const (Response.error INTERNAL_ERROR)
      · next path params hmatch =>
        cases hauth : requireAuth platform users request.token with
        | none =>
            refine .congr (fun s hs => ?_) (blind_const (.error UNAUTHENTICATED))
            rw [hs, hauth]
        | some user =>
            refine .congr (fun s hs => ?_) (dispatch_blind handlers request user (hby user hauth)
              (hguards _ List.mem_cons_self path params hmatch) hrest)
            rw [hs, hauth]

theorem matchPath_literal {name : String} {pattern : List Pattern} {segment : Segment}
    {path : List Segment} {matched : List Segment × Option Params}
    (h : matchPath (.literal name :: pattern) (segment :: path) = some matched) :
    matchPath pattern path = some matched := by
  simp only [matchPath, Option.ite_none_right_eq_some] at h
  exact h.2

theorem matchPath_param {name : String} {pattern : List Pattern} {segment : Segment}
    {path rest : List Segment} {params : Params}
    (h : matchPath (.param name :: pattern) (segment :: path) = some (rest, some params)) :
    ∃ value own, segment.decoded = some value ∧ params = (name, value) :: own ∧
      matchPath pattern path = some (rest, some own) := by
  simp only [matchPath, Option.ite_none_left_eq_some, Option.map_eq_some_iff, Prod.mk.injEq] at h
  obtain ⟨-, ⟨rest, matched⟩, hmatch, rfl, hparams⟩ := h
  obtain ⟨value, hvalue, hparams⟩ := Option.bind_eq_some_iff.mp hparams
  obtain ⟨own, rfl, hown⟩ := Option.bind_eq_some_iff.mp hparams
  exact ⟨value, own, hvalue, (Option.some.inj hown).symm, hmatch⟩

theorem guards_below {named : Segment} (hnamed : named.decoded = some projectId)
    {pattern : List Pattern} {rest path : List Segment} {params : Params} {router : List Route}
    (hmatch : matchPath (.param "projectId" :: pattern) (named :: rest) = some (path, some params))
    (hrouter : ∀ route ∈ router, ∃ minRole, route.guard = some ⟨minRole, "projectId"⟩) :
    Guards projectId params path router := by
  intro route hroute own _
  obtain ⟨value, params', hvalue, rfl, -⟩ := matchPath_param hmatch
  obtain rfl : projectId = value := Option.some.inj (hnamed.symm.trans hvalue)
  obtain ⟨minRole, hguard⟩ := hrouter route hroute
  exact ⟨_, hguard, by simp⟩

theorem guards_projectsRouter {named : Segment} (hnamed : named.decoded = some projectId)
    (rest : List Segment) : Guards projectId [] (named :: rest) projectsRouter := by
  intro route hroute own hown
  have hroutes : route.pattern = [] ∨
      ∃ pattern minRole, route.pattern = .param "id" :: pattern ∧
        route.guard = some ⟨minRole, "id"⟩ := by
    simp only [projectsRouter, List.mem_cons, List.not_mem_nil, or_false] at hroute
    rcases hroute with rfl | rfl | rfl | rfl | rfl | rfl | rfl | rfl <;> simp
  rcases hroutes with hpattern | ⟨pattern, minRole, hpattern, hguard⟩
  · simp [hpattern, matchPath] at hown
  · rw [hpattern] at hown
    obtain ⟨value, own, hvalue, rfl, -⟩ := matchPath_param hown
    obtain rfl : projectId = value := Option.some.inj (hnamed.symm.trans hvalue)
    exact ⟨_, hguard, by simp⟩

/-- Under each mount, every route of a path of this project is guarded by it. -/
theorem guards_mounts {api projects named : Segment} (hnamed : named.decoded = some projectId)
    (rest : List Segment) :
    ∀ entry ∈ mounts, ∀ path params,
      matchPath entry.1 (api :: projects :: named :: rest) = some (path, some params) →
        Guards projectId params path entry.2 := by
  intro entry hentry path params hmatch
  simp only [mounts, List.mem_cons, List.not_mem_nil, or_false] at hentry
  rcases hentry with rfl | rfl | rfl
  · refine guards_below hnamed (matchPath_literal (matchPath_literal hmatch)) ?_
    simp [filesRouter]
  · refine guards_below hnamed (matchPath_literal (matchPath_literal hmatch)) ?_
    simp [executionRouter]
  · have hprojects := matchPath_literal (matchPath_literal hmatch)
    simp only [matchPath, Option.some.injEq, Prod.mk.injEq] at hprojects
    obtain ⟨rfl, rfl⟩ := hprojects
    exact guards_projectsRouter hnamed rest

theorem handle_blind (handlers : Handlers M β ρ) {request : Request β}
    {api projects named : Segment} {rest : List Segment}
    (hpath : request.path = api :: projects :: named :: rest)
    (hnamed : named.decoded = some projectId)
    (hby : ∀ user, requireAuth platform users request.token = some user → user.id = userId) :
    Blind users projectId userId fun s : Server M => handle platform handlers s request := by
  unfold handle
  split
  · exact blind_const _
  · split
    · exact blind_const _
    · exact route_blind hby (hpath ▸ guards_mounts hnamed rest)

/-! ## Upgrades of a stranger -/

theorem handshake_congr (c c' : Calls δ) (h : c.findUser = c'.findUser)
    (request : Collab.WsServer.Request) :
    handshake platform c request = handshake platform c' request := by
  have hauth : authenticateToken platform c = authenticateToken platform c' := by
    funext token
    simp only [authenticateToken, h]
  unfold handshake
  rw [hauth]

theorem assertAccess_stranger {calls : Calls δ} {user : AuthedUser} {doc : DocRef}
    (h : calls.findMember user.id doc.projectId = .ok none) :
    assertAccess calls user.id doc.projectId .VIEWER = .error (.app notFound) := by
  simp only [assertAccess, h]

theorem handleConnection_stranger {calls : Calls δ} {user : AuthedUser} {doc : DocRef}
    (h : calls.findMember user.id doc.projectId = .ok none) :
    handleConnection platform calls user doc = .ok (.closed .NotFound) := by
  have hstatus : notFound.status ≠ 403 := by decide
  simp only [handleConnection, assertAccess_stranger h, if_neg hstatus]

/-- Calls that find these users and no member of any project. -/
def strangers (users : List AuthedUser) : Calls δ where
  findUser userId := .ok (findUser users userId)
  findMember _ _ := .ok none
  join _ := .finds (.ok none)
  awareness _ := []

theorem connect_blind {joinRoom : Server M → DocRef → Server M × Join δ}
    {awareness : Server M → DocRef → List Client}
    {request : Collab.WsServer.Request}
    (hby : ∀ user doc, handshake platform (strangers users) request = .ok (.inr (user, doc)) →
      user.id = userId ∧ doc.projectId = projectId) :
    Blind users projectId userId fun s => connect platform joinRoom awareness s request := by
  refine ⟨onUpgrade platform (strangers users) request, fun s hs hmember => ?_⟩
  have hshake : handshake platform (calls joinRoom awareness s) request =
      handshake platform (strangers users) request :=
    handshake_congr _ _ (by funext id; simp only [calls, strangers, hs]) request
  show connect platform joinRoom awareness s request = _
  simp only [connect, admitted, onUpgrade, hshake]
  cases platform.newURL (request.url.getD "") with
  | error e => rfl
  | ok url =>
      by_cases hpath : url.pathname ≠ WS_PATH
      · simp [hpath]
      by_cases hupgrade : platform.handleUpgrade request = false
      · simp [hupgrade]
      cases hasked : handshake platform (strangers users) request with
      | error e => simp [hpath, hupgrade]
      | ok asked =>
          cases asked with
          | inl code => simp [hpath, hupgrade]
          | inr seat =>
              obtain ⟨user, doc⟩ := seat
              obtain ⟨hid, hdoc⟩ := hby user doc hasked
              have hs' :
                  (calls joinRoom awareness s).findMember user.id doc.projectId = .ok none := by
                simp only [calls, hid, hdoc, hmember]
              have hnone : (strangers users : Calls δ).findMember user.id doc.projectId =
                .ok none := rfl
              simp [hpath, hupgrade, assertAccess_stranger hs', handleConnection_stranger hs',
                handleConnection_stranger hnone]

/-- Two servers of a stranger are told apart by none of these. -/
theorem Blind.same {f : Server M → Server M × α} (h : Blind users projectId userId f)
    {s t : Server M} (hs : s.db.users = users) (ht : t.db.users = users)
    (hsmember : findUnique (s.db.members projectId) userId = none)
    (htmember : findUnique (t.db.members projectId) userId = none) :
    (f s).2 = (f t).2 ∧ (f s).1 = s ∧ (f t).1 = t := by
  obtain ⟨answer, hanswer⟩ := h
  rw [hanswer s hs hsmember, hanswer t ht htmember]
  exact ⟨rfl, rfl, rfl⟩

/-- The path of the request is one of this project. -/
def Request.Names (request : Request β) (projectId : String) : Prop :=
  ∃ api projects named rest, request.path = api :: projects :: named :: rest ∧
    named.decoded = some projectId

end Privacy

/-- Whether a project exists, and what is in it, is kept from who is no member of it. -/
theorem project_existence_private {M β ρ δ : Type} (platform : Platform δ)
    (handlers : Handlers M β ρ) (joinRoom : Server M → DocRef → Server M × Join δ)
    (awareness : Server M → DocRef → List Client)
    (projectId userId : String) {s t : Server M} (hagree : AgreeExcept projectId s.db t.db)
    (hs : findUnique (s.db.members projectId) userId = none)
    (ht : findUnique (t.db.members projectId) userId = none) :
    (∀ request : Request β, request.Names projectId →
      (∀ user, requireAuth platform s.db.users request.token = some user → user.id = userId) →
        (handle platform handlers s request).2 = (handle platform handlers t request).2 ∧
        (handle platform handlers s request).1 = s ∧
        (handle platform handlers t request).1 = t) ∧
      ∀ request : Collab.WsServer.Request,
        (∀ user doc,
          handshake platform (calls joinRoom awareness s) request = .ok (.inr (user, doc)) →
          user.id = userId ∧ doc.projectId = projectId) →
        (connect platform joinRoom awareness s request).2 =
          (connect platform joinRoom awareness t request).2 ∧
        (connect platform joinRoom awareness s request).1 = s ∧
        (connect platform joinRoom awareness t request).1 = t := by
  constructor
  · rintro request ⟨api, projects, named, rest, hpath, hnamed⟩ hby
    have hblind := handle_blind handlers hpath hnamed hby
    exact hblind.same rfl hagree.users.symm hs ht
  · intro request hby
    have hblind : Blind s.db.users projectId userId fun s : Server M =>
        connect platform joinRoom awareness s request := by
      refine connect_blind fun user doc hasked => hby user doc ?_
      rw [handshake_congr (calls joinRoom awareness s) (strangers s.db.users) rfl request]
      exact hasked
    exact hblind.same rfl hagree.users.symm hs ht

/-- A run in, and a visit to, a project of another user and one that is not there. -/
theorem project_existence_private_run :
    let platform : Platform Unit :=
      { newURL := fun _ => .ok ⟨"/ws", [("doc", "p:f")]⟩
        handleUpgrade := fun _ => true
        jwtVerify := fun _ => .ok ⟨some "u", some "u@example.com"⟩
        webOrigin := "http://localhost:5173"
        applyUpdate := fun _ _ => .ok ()
        emptyDoc := ()
        seed := fun _ => ()
        stringify := fun _ => .ok "{}" }
    let handlers : Handlers Nat Unit String :=
      { handle := fun _ s _ _ _ _ => (⟨s.db, s.memory + 1⟩, .answer "done")
        options := fun _ => "" }
    let users : List Collab.WsServer.AuthedUser := [⟨"u", "u@example.com", "U"⟩]
    let files : Files.FileTable.Table := ⟨[], by decide, by decide⟩
    let owned : Table := ⟨[⟨"v", .OWNER⟩], by decide⟩
    let nobody : Table := ⟨[], by decide⟩
    let s : Server Nat :=
      ⟨⟨users, [⟨"p", "P", "v"⟩], fun id => if id = "p" then owned else nobody, files,
        fun _ => .empty⟩, 0⟩
    let t : Server Nat := ⟨⟨users, [], fun _ => nobody, files, fun _ => .empty⟩, 0⟩
    let request : Request Unit :=
      ⟨.POST, [⟨"api", some "api"⟩, ⟨"projects", some "projects"⟩, ⟨"p", some "p"⟩,
        ⟨"run", some "run"⟩], none, some "token", some ()⟩
    let join : Server Nat → DocRef → Server Nat × Join Unit :=
      fun s _ => (⟨s.db, s.memory + 1⟩, .finds (.ok (some ())))
    let awareness : Server Nat → DocRef → List Client := fun _ _ => [⟨1, 1, "{}"⟩]
    let upgrade : Collab.WsServer.Request :=
      ⟨some "/ws?doc=p:f", none, some "ce_session=token"⟩
    ((handle platform handlers s request).2 = (handle platform handlers t request).2 ∧
      (handle platform handlers s request).1 = s ∧ (handle platform handlers t request).1 = t) ∧
      (connect platform join awareness s upgrade).2 =
        (connect platform join awareness t upgrade).2 ∧
      (connect platform join awareness s upgrade).1 = s ∧
        (connect platform join awareness t upgrade).1 = t := by
  intro platform handlers users files owned nobody s t request join awareness upgrade
  have hagree : AgreeExcept "p" s.db t.db :=
    { users := rfl
      projects := by
        intro row hrow
        have hne : row ≠ ⟨"p", "P", "v"⟩ := fun h => hrow (h ▸ rfl)
        simp [s, t, hne]
      members := fun id hid => if_neg hid
      files := fun _ _ => Iff.rfl
      documents := fun _ _ => rfl }
  have hprivate := project_existence_private platform handlers join awareness "p" "u" hagree
    (by decide) (by decide)
  refine ⟨hprivate.1 request ⟨_, _, _, _, rfl, rfl⟩ fun user huser => ?_,
    hprivate.2 upgrade fun user doc hasked => ?_⟩
  · obtain rfl : ⟨"u", "u@example.com", "U"⟩ = user := Option.some.inj huser
    rfl
  · have hseat : handshake platform (calls join awareness s) upgrade =
        .ok (.inr (⟨"u", "u@example.com", "U"⟩, ⟨"p", "f"⟩)) := rfl
    simp only [hseat, Except.ok.injEq, Sum.inr.injEq, Prod.mk.injEq] at hasked
    obtain ⟨rfl, rfl⟩ := hasked
    exact ⟨rfl, rfl⟩

end CollabIDE.Http.App
