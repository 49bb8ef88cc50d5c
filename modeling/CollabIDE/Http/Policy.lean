import CollabIDE.Http.App
/-!
# Who may do what

The routers with their mounts, patterns and guards say who may call which
handler only as a whole: a request passes from one router on to the next.  Here
is the table they amount to below `/api/projects`, with the order of the checks
a request has to pass.
-/

namespace CollabIDE.Http.App

open CollabIDE.Auth.Authorize CollabIDE.Collab.WsServer CollabIDE.Http.Errors
open CollabIDE.Projects.MemberTable

/-! ## The table -/

/-- What a path names below a project. -/
inductive Place
  | project
  | members
  | member (userId : Segment)
  | files
  | file (fileId : Segment)
  | run
  | stream (jobId : Segment)

/-- The place of what is left of a path behind the project's id. -/
def place : List Segment → Option Place
  | [] => some .project
  | [a] =>
    if a.raw.toLower = "members" then some .members
    else if a.raw.toLower = "files" then some .files
    else if a.raw.toLower = "run" then some .run
    else none
  | [a, b] =>
    if a.raw.toLower = "members" then some (.member b)
    else if a.raw.toLower = "files" then some (.file b)
    else none
  | [a, b, c] =>
    if a.raw.toLower = "runs" ∧ c.raw.toLower = "stream" then some (.stream b) else none
  | _ => none

/-- The handler of each method at each place, and the role it takes. -/
def matrix : Place → Method → Option (Endpoint × Role)
  | .project, .GET | .project, .HEAD => some (.getProject, .VIEWER)
  | .project, .PATCH => some (.renameProject, .OWNER)
  | .project, .DELETE => some (.deleteProject, .OWNER)
  | .members, .POST => some (.addMember, .OWNER)
  | .member _, .PATCH => some (.changeMemberRole, .OWNER)
  | .member _, .DELETE => some (.removeMember, .OWNER)
  | .files, .GET | .files, .HEAD => some (.listTree, .VIEWER)
  | .files, .POST => some (.createFile, .EDITOR)
  | .file _, .GET | .file _, .HEAD => some (.readFile, .VIEWER)
  | .file _, .PATCH => some (.moveFile, .EDITOR)
  | .file _, .DELETE => some (.deleteFile, .EDITOR)
  | .run, .POST => some (.startRun, .EDITOR)
  | .stream _, .GET | .stream _, .HEAD => some (.streamRun, .EDITOR)
  | _, _ => none

/-- The handlers that name no project. -/
def collection : Method → Option Endpoint
  | .POST => some .createProject
  | .GET | .HEAD => some .listProjects
  | _ => none

/-- The parameters of a place, `none` where one does not decode. -/
def Place.params (projectId : String) : Place → Option Params
  | .project | .members => some [("id", projectId)]
  | .member userId => userId.decoded.map fun value => [("id", projectId), ("userId", value)]
  | .files | .run => some [("projectId", projectId)]
  | .file fileId => fileId.decoded.map fun value => [("projectId", projectId), ("fileId", value)]
  | .stream jobId => jobId.decoded.map fun value => [("projectId", projectId), ("jobId", value)]

section

variable {M β ρ δ : Type} (platform : Platform δ) (handlers : Handlers M β ρ)

/-- The role of a user in the project, then the handler. -/
def permitted (s : Server M) (user : AuthedUser) (params : Params) (body : Option β)
    (projectId : String) (endpoint : Endpoint) (minRole : Role) : Effect M ρ :=
  if projectId = "" then (s, .error notFound)
  else
    match assertProjectAccess (s.db.members projectId) user.id projectId minRole with
    | .error e => (s, .error e)
    | .ok access => handlers.handle endpoint s user params body (some access)

/-- Where there is no handler. -/
def unrouted (s : Server M) (request : Request β) : Effect M ρ :=
  if request.method = .OPTIONS then (s, .answer (handlers.options request))
  else (s, .error routeNotFound)

/-- What a user's request does at the rest of a path behind a project's id. -/
def atPlace (s : Server M) (user : AuthedUser) (request : Request β) (projectId : String)
    (rest : List Segment) : Effect M ρ :=
  match place rest with
  | none => unrouted handlers s request
  | some place =>
    match place.params projectId with
    | none => (s, .error INTERNAL_ERROR)
    | some params =>
      match matrix place request.method with
      | none => unrouted handlers s request
      | some (endpoint, minRole) =>
        permitted handlers s user params request.body projectId endpoint minRole

/-- Sign-in, then what a user's request does. -/
def authenticated (s : Server M) (request : Request β) (k : AuthedUser → Effect M ρ) :
    Effect M ρ :=
  match requireAuth platform s.db.users request.token with
  | none => (s, .error UNAUTHENTICATED)
  | some user => k user

/-- What a request does below `/api/projects`. -/
def atProjects (s : Server M) (request : Request β) : List Segment → Effect M ρ
  | [] => authenticated platform s request fun user =>
    match collection request.method with
    | none => unrouted handlers s request
    | some endpoint => handlers.handle endpoint s user [] request.body none
  | named :: rest =>
    match named.decoded with
    | none => (s, .error INTERNAL_ERROR)
    | some projectId => authenticated platform s request fun user =>
      atPlace handlers s user request projectId rest

/-- What a request does whose path goes on with `rest` below `/api/projects`, check after check. -/
def policy (s : Server M) (request : Request β) (rest : List Segment) : Effect M ρ :=
  if request.body.isNone then (s, .error INTERNAL_ERROR)
  else if request.method ∈ MUTATING_METHODS ∧ request.origin.any (· ≠ platform.webOrigin) then
    (s, .error BAD_ORIGIN)
  else atProjects platform handlers s request rest

end

/-- The path goes on with `rest` below `/api/projects`, and has no doubled slash there. -/
def Request.Below {β : Type} (request : Request β) (rest : List Segment) : Prop :=
  ∃ api projects, request.path = api :: projects :: rest ∧ api.raw.toLower = "api" ∧
    projects.raw.toLower = "projects" ∧ ∀ segment ∈ rest, segment.raw ≠ ""

/-! ## One pattern, one route, one mount -/

section Steps

variable {name : String} {pattern : List Pattern} {segment : Segment} {path : List Segment}

@[simp] theorem matchPath_nil : matchPath [] path = some (path, some []) := rfl

@[simp] theorem matchPath_literal_cons :
    matchPath (.literal name :: pattern) (segment :: path) =
      if segment.raw.toLower = name then matchPath pattern path else none := rfl

@[simp] theorem matchPath_param_cons :
    matchPath (.param name :: pattern) (segment :: path) =
      if segment.raw = "" then none
      else (matchPath pattern path).map fun matched =>
        (matched.1, do
          let value ← segment.decoded
          let params ← matched.2
          some ((name, value) :: params)) := rfl

@[simp] theorem matchPath_short (here : Pattern) : matchPath (here :: pattern) [] = none := by
  cases here <;> rfl

variable {M β ρ δ : Type} {platform : Platform δ} {handlers : Handlers M β ρ}
variable {s : Server M} {user : AuthedUser} {request : Request β} {params : Params}

@[simp] theorem dispatch_nil : dispatch handlers s user request params path [] = none := rfl

@[simp] theorem dispatch_cons (here : Route) (routes : List Route) :
    dispatch handlers s user request params path (here :: routes) =
      match matchPath here.pattern path with
      | some ([], none) => some (s, .error INTERNAL_ERROR)
      | some ([], some own) =>
        if here.accepts request.method then
          some (guarded handlers s user (params ++ own) request.body here.endpoint here.guard)
        else dispatch handlers s user request params path routes
      | _ => dispatch handlers s user request params path routes := rfl

@[simp] theorem route_nil :
    route platform handlers s request [] = unrouted handlers s request := rfl

@[simp] theorem route_cons (mount : List Pattern) (router : List Route)
    (mounts : List (List Pattern × List Route)) :
    route platform handlers s request ((mount, router) :: mounts) =
      match matchPath mount request.path with
      | none => route platform handlers s request mounts
      | some (_, none) => (s, .error INTERNAL_ERROR)
      | some (path, some params) =>
        match requireAuth platform s.db.users request.token with
        | none => (s, .error UNAUTHENTICATED)
        | some user =>
          (dispatch handlers s user request params path router).getD
            (route platform handlers s request mounts) := rfl

end Steps

/-! ## One router -/

section Routers

variable {M β ρ δ : Type} {platform : Platform δ} {handlers : Handlers M β ρ}
variable {s : Server M} {user : AuthedUser} {request : Request β} {projectId : String}

theorem guarded_cons (name : String) (own : Params) (body : Option β) (endpoint : Endpoint)
    (minRole : Role) :
    guarded handlers s user ((name, projectId) :: own) body endpoint (some ⟨minRole, name⟩) =
      permitted handlers s user ((name, projectId) :: own) body projectId endpoint minRole := by
  simp only [guarded, List.lookup_cons_self]
  rfl

/-- What a place does, if its parameters decode and it has a handler for the method. -/
def offered (handlers : Handlers M β ρ) (s : Server M) (user : AuthedUser) (request : Request β)
    (projectId : String) (here : Place) : Option (Effect M ρ) :=
  match here.params projectId with
  | none => some (s, .error INTERNAL_ERROR)
  | some params => (matrix here request.method).map fun (endpoint, minRole) =>
    permitted handlers s user params request.body projectId endpoint minRole

theorem offered_some {here : Place} {params : Params} (h : here.params projectId = some params) :
    offered handlers s user request projectId here =
      (matrix here request.method).map fun (endpoint, minRole) =>
        permitted handlers s user params request.body projectId endpoint minRole := by
  rw [offered, h]

theorem offered_none {here : Place} (h : here.params projectId = none) :
    offered handlers s user request projectId here = some (s, .error INTERNAL_ERROR) := by
  rw [offered, h]

theorem dispatch_filesRouter_nil :
    dispatch handlers s user request [("projectId", projectId)] [] filesRouter =
      offered handlers s user request projectId .files := by
  rw [offered_some (rfl : Place.files.params projectId = some _)]
  simp only [filesRouter, dispatch_nil, dispatch_cons, matchPath_nil, matchPath_short,
    List.append_nil, guarded_cons]
  cases request.method <;> rfl

theorem dispatch_filesRouter_one {b : Segment} (hb : b.raw ≠ "") :
    dispatch handlers s user request [("projectId", projectId)] [b] filesRouter =
      offered handlers s user request projectId (.file b) := by
  cases hd : b.decoded with
  | none =>
      have hparams : (Place.file b).params projectId = none := congrArg (Option.map _) hd
      rw [offered_none hparams]
      simp [filesRouter, hb, hd]
  | some value =>
      have hparams : (Place.file b).params projectId = some _ := congrArg (Option.map _) hd
      rw [offered_some hparams]
      simp only [filesRouter, dispatch_nil, dispatch_cons, matchPath_nil, matchPath_param_cons,
        hb, hd, if_false, Option.map_some]
      cases request.method <;> rfl

theorem dispatch_filesRouter_more {b c : Segment} {rest : List Segment} :
    dispatch handlers s user request [("projectId", projectId)] (b :: c :: rest) filesRouter =
      none := by
  by_cases hb : b.raw = "" <;> simp [filesRouter, hb]

theorem dispatch_executionRouter_run {a : Segment} (ha : a.raw.toLower = "run") :
    dispatch handlers s user request [("projectId", projectId)] [a] executionRouter =
      offered handlers s user request projectId .run := by
  rw [offered_some (rfl : Place.run.params projectId = some _)]
  simp only [executionRouter, dispatch_nil, dispatch_cons, matchPath_nil, matchPath_literal_cons,
    matchPath_short, ha, if_true, List.append_nil, guarded_cons]
  cases request.method <;> rfl

theorem dispatch_executionRouter_stream {a b c : Segment} (ha : a.raw.toLower = "runs")
    (hb : b.raw ≠ "") (hc : c.raw.toLower = "stream") :
    dispatch handlers s user request [("projectId", projectId)] [a, b, c] executionRouter =
      offered handlers s user request projectId (.stream b) := by
  have hrun : "runs" ≠ "run" := by decide
  cases hd : b.decoded with
  | none =>
      have hparams : (Place.stream b).params projectId = none := congrArg (Option.map _) hd
      rw [offered_none hparams]
      simp [executionRouter, ha, hb, hc, hd]
  | some value =>
      have hparams : (Place.stream b).params projectId = some _ := congrArg (Option.map _) hd
      rw [offered_some hparams]
      simp only [executionRouter, dispatch_nil, dispatch_cons, matchPath_nil,
        matchPath_literal_cons, matchPath_param_cons, ha, hb, hc, hd, hrun, if_true, if_false,
        Option.map_some]
      cases request.method <;> rfl

theorem dispatch_executionRouter_none {rest : List Segment}
    (hrun : ∀ a, rest = [a] → a.raw.toLower ≠ "run")
    (hstream : ∀ a b c, rest = [a, b, c] → a.raw.toLower = "runs" →
      c.raw.toLower ≠ "stream") :
    dispatch handlers s user request [("projectId", projectId)] rest executionRouter = none := by
  match rest with
  | [] => simp [executionRouter]
  | [a] => simp [executionRouter, hrun a rfl]
  | [a, b] =>
      by_cases ha : a.raw.toLower = "run" <;> by_cases hb : b.raw = "" <;>
        simp [executionRouter, ha, hb]
  | [a, b, c] =>
      by_cases ha : a.raw.toLower = "runs"
      · by_cases hb : b.raw = ""
        · simp [executionRouter, ha, hb]
        · simp [executionRouter, ha, hb, hstream a b c rfl ha]
      · by_cases ha' : a.raw.toLower = "run" <;>
          simp [executionRouter, ha, ha']
  | a :: b :: c :: d :: rest =>
      by_cases ha : a.raw.toLower = "run" <;> by_cases hb : b.raw = "" <;>
        by_cases ha' : a.raw.toLower = "runs" <;> by_cases hc : c.raw.toLower = "stream" <;>
          simp [executionRouter, ha, hb, ha', hc]

theorem dispatch_projectsRouter_nil :
    dispatch handlers s user request [] [] projectsRouter =
      (collection request.method).map fun endpoint =>
        handlers.handle endpoint s user [] request.body none := by
  simp only [projectsRouter, dispatch_nil, dispatch_cons, matchPath_nil, matchPath_short,
    List.append_nil]
  cases request.method <;> rfl

section Named

variable {named : Segment} (hraw : named.raw ≠ "") (hnamed : named.decoded = some projectId)

include hraw hnamed

theorem dispatch_projectsRouter_project :
    dispatch handlers s user request [] [named] projectsRouter =
      offered handlers s user request projectId .project := by
  rw [offered_some (rfl : Place.project.params projectId = some _)]
  simp only [projectsRouter, dispatch_nil, dispatch_cons, matchPath_nil, matchPath_param_cons,
    matchPath_short, hraw, hnamed, if_false, Option.map_some]
  cases request.method <;> rfl

theorem dispatch_projectsRouter_members {a : Segment} (ha : a.raw.toLower = "members") :
    dispatch handlers s user request [] [named, a] projectsRouter =
      offered handlers s user request projectId .members := by
  rw [offered_some (rfl : Place.members.params projectId = some _)]
  simp only [projectsRouter, dispatch_nil, dispatch_cons, matchPath_nil, matchPath_literal_cons,
    matchPath_param_cons, matchPath_short, hraw, hnamed, ha, if_true, if_false, Option.map_some]
  cases request.method <;> rfl

theorem dispatch_projectsRouter_member {a b : Segment} (ha : a.raw.toLower = "members")
    (hb : b.raw ≠ "") :
    dispatch handlers s user request [] [named, a, b] projectsRouter =
      offered handlers s user request projectId (.member b) := by
  cases hd : b.decoded with
  | none =>
      have hparams : (Place.member b).params projectId = none := congrArg (Option.map _) hd
      rw [offered_none hparams]
      simp [projectsRouter, hraw, hnamed, ha, hb, hd]
  | some value =>
      have hparams : (Place.member b).params projectId = some _ := congrArg (Option.map _) hd
      rw [offered_some hparams]
      simp only [projectsRouter, dispatch_nil, dispatch_cons, matchPath_nil,
        matchPath_literal_cons, matchPath_param_cons, hraw, hnamed, ha, hb, hd, if_true, if_false,
        Option.map_some]
      cases request.method <;> rfl

omit hnamed in
theorem dispatch_projectsRouter_none {rest : List Segment} (hsome : rest ≠ [])
    (hmembers : ∀ a, rest = [a] → a.raw.toLower ≠ "members")
    (hmember : ∀ a b, rest = [a, b] → a.raw.toLower ≠ "members") :
    dispatch handlers s user request [] (named :: rest) projectsRouter = none := by
  match rest with
  | [] => exact absurd rfl hsome
  | [a] => simp [projectsRouter, hraw, hmembers a rfl]
  | [a, b] => simp [projectsRouter, hraw, hmember a b rfl]
  | a :: b :: c :: rest =>
      by_cases ha : a.raw.toLower = "members" <;> by_cases hb : b.raw = "" <;>
        simp [projectsRouter, hraw, ha, hb]

end Named

/-! ## The routers one after another -/

/-- The files router, where the path goes on that way. -/
def inFiles (handlers : Handlers M β ρ) (s : Server M) (user : AuthedUser) (request : Request β)
    (projectId : String) : List Segment → Option (Effect M ρ)
  | [] => none
  | a :: rest =>
    if a.raw.toLower = "files" then
      dispatch handlers s user request [("projectId", projectId)] rest filesRouter
    else none

section Below

variable {api projects named : Segment} {rest : List Segment}
variable (hapi : api.raw.toLower = "api") (hprojects : projects.raw.toLower = "projects")

include hapi hprojects in
/-- Below a project the files router comes first and the projects router last. -/
theorem route_project (hpath : request.path = api :: projects :: named :: rest)
    (hraw : named.raw ≠ "") (hnamed : named.decoded = some projectId)
    (hauth : requireAuth platform s.db.users request.token = some user) :
    route platform handlers s request mounts =
      (inFiles handlers s user request projectId rest).getD
        ((dispatch handlers s user request [("projectId", projectId)] rest executionRouter).getD
          ((dispatch handlers s user request [] (named :: rest) projectsRouter).getD
            (unrouted handlers s request))) := by
  cases rest with
  | nil =>
      simp [mounts, hpath, hapi, hprojects, hraw, hnamed, hauth, inFiles, unrouted]
  | cons a rest =>
      by_cases ha : a.raw.toLower = "files" <;>
        simp [mounts, hpath, hapi, hprojects, hraw, hnamed, hauth, ha, inFiles, unrouted]

theorem getD_offered {here : Place} (hplace : place rest = some here) :
    (offered handlers s user request projectId here).getD (unrouted handlers s request) =
      atPlace handlers s user request projectId rest := by
  simp only [atPlace, hplace, offered]
  cases here.params projectId with
  | none => rfl
  | some params => cases matrix here request.method <;> rfl

theorem getD_none (hplace : place rest = none) :
    (none : Option (Effect M ρ)).getD (unrouted handlers s request) =
      atPlace handlers s user request projectId rest := by
  rw [atPlace, hplace]
  rfl

theorem projects_none (hraw : named.raw ≠ "") {a : Segment} (ha : a.raw.toLower ≠ "members") :
    dispatch handlers s user request [] (named :: a :: rest) projectsRouter = none := by
  refine dispatch_projectsRouter_none hraw (List.cons_ne_nil _ _) ?_ ?_
  · rintro _ ⟨⟩
    exact ha
  · rintro _ b ⟨⟩
    exact ha

/-- One router after another is the table. -/
theorem routers_eq_atPlace (hraw : named.raw ≠ "") (hnamed : named.decoded = some projectId)
    (hrest : ∀ segment ∈ rest, segment.raw ≠ "") :
    (inFiles handlers s user request projectId rest).getD
      ((dispatch handlers s user request [("projectId", projectId)] rest executionRouter).getD
        ((dispatch handlers s user request [] (named :: rest) projectsRouter).getD
          (unrouted handlers s request))) = atPlace handlers s user request projectId rest := by
  have hfiles : "members" ≠ "files" := by decide
  match rest with
  | [] =>
      rw [inFiles, dispatch_executionRouter_none (by simp) (by simp),
        dispatch_projectsRouter_project hraw hnamed]
      exact getD_offered rfl
  | [a] =>
      by_cases hm : a.raw.toLower = "members"
      · rw [inFiles, if_neg (hm ▸ hfiles), dispatch_executionRouter_none (by simp [hm]) (by simp),
          dispatch_projectsRouter_members hraw hnamed hm]
        exact getD_offered (by rw [place, if_pos hm])
      rw [projects_none hraw hm]
      by_cases hf : a.raw.toLower = "files"
      · rw [inFiles, if_pos hf, dispatch_filesRouter_nil,
          dispatch_executionRouter_none (by simp [hf]) (by simp)]
        exact getD_offered (by rw [place, if_neg hm, if_pos hf])
      rw [inFiles, if_neg hf]
      by_cases hr : a.raw.toLower = "run"
      · rw [dispatch_executionRouter_run hr]
        exact getD_offered (by rw [place, if_neg hm, if_neg hf, if_pos hr])
      · rw [dispatch_executionRouter_none (by simp [hr]) (by simp)]
        exact getD_none (by rw [place, if_neg hm, if_neg hf, if_neg hr])
  | [a, b] =>
      have hb : b.raw ≠ "" := hrest b (by simp)
      rw [dispatch_executionRouter_none (by simp) (by simp)]
      by_cases hm : a.raw.toLower = "members"
      · rw [inFiles, if_neg (hm ▸ hfiles), dispatch_projectsRouter_member hraw hnamed hm hb]
        exact getD_offered (by rw [place, if_pos hm])
      rw [projects_none hraw hm]
      by_cases hf : a.raw.toLower = "files"
      · rw [inFiles, if_pos hf, dispatch_filesRouter_one hb]
        exact getD_offered (by rw [place, if_neg hm, if_pos hf])
      · rw [inFiles, if_neg hf]
        exact getD_none (by rw [place, if_neg hm, if_neg hf])
  | [a, b, c] =>
      have hb : b.raw ≠ "" := hrest b (by simp)
      rw [dispatch_projectsRouter_none hraw (by simp) (by simp) (by simp), inFiles,
        dispatch_filesRouter_more, ite_self]
      by_cases hs : a.raw.toLower = "runs" ∧ c.raw.toLower = "stream"
      · rw [dispatch_executionRouter_stream hs.1 hb hs.2]
        exact getD_offered (by rw [place, if_pos hs])
      · rw [dispatch_executionRouter_none (by simp) (by simpa using hs)]
        exact getD_none (by rw [place, if_neg hs])
  | a :: b :: c :: d :: rest =>
      rw [dispatch_projectsRouter_none hraw (by simp) (by simp) (by simp), inFiles,
        dispatch_filesRouter_more, ite_self, dispatch_executionRouter_none (by simp) (by simp)]
      exact getD_none rfl

theorem route_eq_atProjects {rest : List Segment} (hpath : request.path = api :: projects :: rest)
    (hapi : api.raw.toLower = "api") (hprojects : projects.raw.toLower = "projects")
    (hrest : ∀ segment ∈ rest, segment.raw ≠ "") :
    route platform handlers s request mounts = atProjects platform handlers s request rest := by
  cases rest with
  | nil =>
      simp only [atProjects, authenticated]
      cases hauth : requireAuth platform s.db.users request.token with
      | none => simp [mounts, hpath, hapi, hprojects, hauth]
      | some user =>
          simp only [mounts, route_nil, route_cons, matchPath_nil, matchPath_literal_cons,
            matchPath_short, hpath, hapi, hprojects, hauth, dispatch_projectsRouter_nil, if_true]
          cases collection request.method <;> rfl
  | cons named rest =>
      obtain ⟨hraw, hrest⟩ := List.forall_mem_cons.mp hrest
      rw [atProjects]
      cases hnamed : named.decoded with
      | none =>
          cases rest with
          | nil => simp [mounts, hpath, hapi, hprojects, hraw, hnamed]
          | cons a rest =>
              by_cases ha : a.raw.toLower = "files" <;>
                simp [mounts, hpath, hapi, hprojects, hraw, hnamed, ha]
      | some projectId =>
          simp only [authenticated]
          cases hauth : requireAuth platform s.db.users request.token with
          | none =>
              cases rest with
              | nil => simp [mounts, hpath, hapi, hprojects, hraw, hnamed, hauth]
              | cons a rest =>
                  by_cases ha : a.raw.toLower = "files" <;>
                    simp [mounts, hpath, hapi, hprojects, hraw, hnamed, hauth, ha]
          | some user =>
              rw [route_project hapi hprojects hpath hraw hnamed hauth]
              exact routers_eq_atPlace hraw hnamed hrest

end Below

end Routers

/-- For every request below `/api/projects` to every server, whatever the handlers do: the routers
in their order do what the table says, and a handler runs only behind every check. -/
theorem handle_eq_policy {M β ρ δ : Type} (platform : Platform δ) (handlers : Handlers M β ρ)
    (s : Server M) {request : Request β} {rest : List Segment} (hbelow : request.Below rest) :
    handle platform handlers s request = policy platform handlers s request rest := by
  obtain ⟨api, projects, hpath, hapi, hprojects, hrest⟩ := hbelow
  unfold handle policy
  rw [route_eq_atProjects hpath hapi hprojects hrest]

/-- An editor writes to a file of the project, which takes the editor's role, and may not rename
the project. -/
theorem handle_eq_policy_editor :
    let platform : Platform Unit :=
      { newURL := fun _ => .ok ⟨"/", []⟩
        handleUpgrade := fun _ => false
        jwtVerify := fun _ => .ok ⟨some "u", some "u@example.com"⟩
        webOrigin := "http://localhost:5173"
        applyUpdate := fun _ _ => .ok ()
        emptyDoc := ()
        seed := fun _ => ()
        stringify := fun _ => .ok "null" }
    let handlers : Handlers Nat Unit String :=
      { handle := fun _ s _ _ _ _ => (⟨s.db, s.memory + 1⟩, .answer "done")
        options := fun _ => "" }
    let editors : Table := ⟨[⟨"u", .EDITOR⟩], by decide⟩
    let files : Files.FileTable.Table := ⟨[], by decide, by decide⟩
    let s : Server Nat :=
      ⟨⟨[⟨"u", "u@example.com", "U"⟩], [⟨"p", "P", "v"⟩], fun _ => editors, files,
        fun _ => .empty⟩, 0⟩
    let api : Segment := ⟨"api", some "api"⟩
    let projects : Segment := ⟨"Projects", some "Projects"⟩
    let project : Segment := ⟨"p", some "p"⟩
    let file : List Segment := [project, ⟨"files", some "files"⟩, ⟨"f", some "f"⟩]
    let move : Request Unit := ⟨.PATCH, api :: projects :: file, none, some "token", some ()⟩
    let rename : Request Unit := ⟨.PATCH, [api, projects, project], none, some "token", some ()⟩
    handle platform handlers s move = policy platform handlers s move file ∧
      (policy platform handlers s move file).2 = .answer "done" ∧
      handle platform handlers s rename = policy platform handlers s rename [project] ∧
      (policy platform handlers s rename [project]).2 = .error (forbidden .OWNER) := by
  intro platform handlers editors files s api projects project file move rename
  have hmove : move.Below file :=
    ⟨api, projects, rfl, by decide +kernel, by decide +kernel, by decide⟩
  have hrename : rename.Below [project] :=
    ⟨api, projects, rfl, by decide +kernel, by decide +kernel, by decide⟩
  have hplace : place file.tail = some (.file ⟨"f", some "f"⟩) :=
    (if_neg (by decide +kernel : ¬ "files".toLower = "members")).trans
      (if_pos (by decide +kernel : "files".toLower = "files"))
  refine ⟨handle_eq_policy platform handlers s hmove, ?_,
    handle_eq_policy platform handlers s hrename, rfl⟩
  change (atPlace handlers s ⟨"u", "u@example.com", "U"⟩ move "p" file.tail).2 = .answer "done"
  rw [atPlace, hplace]
  rfl

end CollabIDE.Http.App
