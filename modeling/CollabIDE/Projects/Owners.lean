import CollabIDE.Projects.Requests
/-!
# Who changes a project

A statement that writes to a project or its members comes from a request that
the guard let in for an owner.  So a project changes only in runs in which one
of its owners asked for it, and it keeps an owner from its creation on while each
write that takes one away still finds as many as its call counted.
-/

namespace CollabIDE.Projects.Requests

open CollabIDE.Auth.Authorize CollabIDE.Lib.Machine CollabIDE.Projects.MemberTable
open CollabIDE.Projects.Members (User counted takesOwner)

variable {toLowerCase : String → String} {db db' : Database} {call : Call} {stage : Stage}
  {id projectId : String} {now : Nat} {s t : State} {e : Event} {events : List Event}

/-! ## What one statement does -/

/-- What a statement may have written. -/
inductive Wrote (db : Database) (call : Call) (id : String) (db' : Database) : Prop
  | nothing (h : db' = db)
  | created {name : String} {now : Nat} (hstage : call.stage = .creating name)
      (h : create db ⟨id, name, call.userId, now, now⟩ = some db')
  | renamed {projectId name : String} {now : Nat} {project : Project}
      (hstage : call.stage = .renaming name) (hproject : call.request.projectId = some projectId)
      (h : rename db projectId name now = some (project, db'))
  | deleted {projectId : String} (hstage : call.stage = .deleting)
      (hproject : call.request.projectId = some projectId) (h : delete db projectId = some db')
  | member {projectId : String} {c c' : Members.Call} {members : Table}
      (hstage : call.stage = .member c) (hproject : call.request.projectId = some projectId)
      (hstmt : Members.statement db.users (db.members projectId) c = some (members, c'))
      (h : setMembers db projectId members = some db')

theorem wrote_of_resume (h : resume toLowerCase db call id now = some (db', stage)) :
    Wrote db call id db' := by
  unfold resume at h
  split at h
  · next name hstage =>
    dsimp only at h
    split at h
    · next created hcreate =>
      obtain ⟨rfl, -⟩ := Prod.mk.inj (Option.some.inj h)
      exact .created hstage hcreate
    · exact .nothing (Prod.mk.inj (Option.some.inj h)).1.symm
  · exact .nothing (Prod.mk.inj (Option.some.inj h)).1.symm
  · split at h
    · cases h
    · split at h <;> exact .nothing (Prod.mk.inj (Option.some.inj h)).1.symm
  · split at h <;> exact .nothing (Prod.mk.inj (Option.some.inj h)).1.symm
  · exact .nothing (Prod.mk.inj (Option.some.inj h)).1.symm
  · next name projectId hstage hproject =>
    split at h
    · next project renamed hrename =>
      obtain ⟨rfl, -⟩ := Prod.mk.inj (Option.some.inj h)
      exact .renamed hstage hproject hrename
    · exact .nothing (Prod.mk.inj (Option.some.inj h)).1.symm
  · next projectId hstage hproject =>
    split at h
    · next deleted hdelete =>
      obtain ⟨rfl, -⟩ := Prod.mk.inj (Option.some.inj h)
      exact .deleted hstage hproject hdelete
    · exact .nothing (Prod.mk.inj (Option.some.inj h)).1.symm
  · exact .nothing (Prod.mk.inj (Option.some.inj h)).1.symm
  · next c projectId hstage hproject =>
    obtain ⟨⟨members, c'⟩, hstmt, hset⟩ := Option.map_eq_some_iff.mp h
    dsimp only at hset
    split at hset
    · next written hwritten =>
      obtain ⟨rfl, -⟩ := Prod.mk.inj hset
      exact .member hstage hproject hstmt hwritten
    · exact .nothing (Prod.mk.inj hset).1.symm
  · cases h

/-- Past the guard of a route that writes to the project it names. -/
def Stage.manages : Stage → Bool
  | .renaming _ | .deleting | .deleted | .member _ => true
  | _ => false

theorem manages_begin (request : Request) : (begin request).manages = false := by
  cases request with
  | createProject name =>
      rw [begin]
      cases projectNameSchema name <;> rfl
  | _ => rfl

theorem hasRole_OWNER {role : Role} (h : hasRole role .OWNER = true) : role = .OWNER := by
  cases role with
  | OWNER => rfl
  | VIEWER => exact absurd h (by decide)
  | EDITOR => exact absurd h (by decide)

theorem minRole_of_manages {access : ProjectAccess} {request : Request}
    (h : (handler toLowerCase access request).manages = true) :
    minRole request.endpoint = some .OWNER := by
  cases request with
  | createProject name | listProjects | getProject id => exact absurd h Bool.false_ne_true
  | renameProject | deleteProject | addMember | changeMemberRole | removeMember => rfl

theorem manages_resume (h : resume toLowerCase db call id now = some (db', stage))
    (hmanages : stage.manages = true) :
    call.stage.manages = true ∨ ∃ projectId, call.request.projectId = some projectId ∧
      minRole call.request.endpoint = some .OWNER ∧
      findUnique (db.members projectId) call.userId = some .OWNER := by
  unfold resume at h
  split at h
  · dsimp only at h
    split at h <;>
    · obtain ⟨-, rfl⟩ := Prod.mk.inj (Option.some.inj h)
      exact absurd hmanages Bool.false_ne_true
  · obtain ⟨-, rfl⟩ := Prod.mk.inj (Option.some.inj h)
    exact absurd hmanages Bool.false_ne_true
  · next projectId hstage hproject =>
    right
    refine ⟨projectId, hproject, ?_⟩
    split at h
    · cases h
    · next role hrole =>
      split at h
      · next access haccess =>
        obtain ⟨-, rfl⟩ := Prod.mk.inj (Option.some.inj h)
        have howner := minRole_of_manages hmanages
        obtain rfl := Option.some.inj (hrole.symm.trans howner)
        obtain ⟨hfound, hhas⟩ := assertProjectAccess_eq_ok haccess
        exact ⟨howner, hasRole_OWNER hhas ▸ hfound⟩
      · obtain ⟨-, rfl⟩ := Prod.mk.inj (Option.some.inj h)
        exact absurd hmanages Bool.false_ne_true
  · split at h <;>
    · obtain ⟨-, rfl⟩ := Prod.mk.inj (Option.some.inj h)
      exact absurd hmanages Bool.false_ne_true
  · obtain ⟨-, rfl⟩ := Prod.mk.inj (Option.some.inj h)
    exact absurd hmanages Bool.false_ne_true
  · next hstage _ => exact .inl (hstage ▸ rfl)
  · next hstage _ => exact .inl (hstage ▸ rfl)
  · next hstage _ => exact .inl (hstage ▸ rfl)
  · next hstage _ => exact .inl (hstage ▸ rfl)
  · cases h

theorem statement_step {i : Nat} (h : step toLowerCase s (.statement i id now) = some t) :
    id ∉ s.issued ∧ ∃ call db' stage, s.calls[i]? = some call ∧
      resume toLowerCase s.db call id now = some (db', stage) ∧
      t = ⟨db', id :: s.issued, s.calls.set i { call with stage }⟩ := by
  rw [step, Option.ite_none_left_eq_some] at h
  obtain ⟨hnew, hbind⟩ := h
  obtain ⟨call, hcall, hmap⟩ := Option.bind_eq_some_iff.mp hbind
  obtain ⟨⟨db', stage⟩, hresume, rfl⟩ := Option.map_eq_some_iff.mp hmap
  exact ⟨hnew, call, db', stage, hcall, hresume, rfl⟩

/-! ## A project that is kept -/

/-- The row of a project and its members as they are. -/
structure Keeps (project : Project) (members : Table) (db : Database) : Prop where
  row : project ∈ db.projects
  members_eq : db.members project.id = members

variable {project : Project} {members : Table}

theorem Keeps.hasProject (h : Keeps project members db) : db.HasProject project.id :=
  List.mem_map_of_mem h.row

theorem ne_of_manages (hother : call.request.projectId = some project.id →
      call.stage.manages = false) (hproject : call.request.projectId = some projectId)
    (hmanages : call.stage.manages = true) : project.id ≠ projectId := by
  rintro rfl
  rw [hother hproject] at hmanages
  cases hmanages

/-- What is written about another project leaves this one as it is. -/
theorem Keeps.wrote (h : Keeps project members db)
    (hother : call.request.projectId = some project.id → call.stage.manages = false)
    (hwrote : Wrote db call id db') : Keeps project members db' := by
  cases hwrote with
  | nothing heq => exact heq ▸ h
  | created hstage hcreate =>
      unfold create at hcreate
      split at hcreate
      · cases hcreate
      · next hnone =>
        obtain rfl := Option.some.inj hcreate
        have hne : project.id ≠ id := fun heq => hnone (heq ▸ h.hasProject)
        exact ⟨List.mem_append_left _ h.row, (Function.update_of_ne hne _ _).trans h.members_eq⟩
  | @renamed projectId name now row hstage hproject hrename =>
      have hne := ne_of_manages hother hproject (hstage ▸ rfl)
      obtain ⟨found, -, heq⟩ := Option.map_eq_some_iff.mp hrename
      obtain ⟨-, rfl⟩ := Prod.mk.inj heq
      exact ⟨List.mem_map.mpr ⟨project, h.row, if_neg hne⟩, h.members_eq⟩
  | @deleted projectId hstage hproject hdelete =>
      have hne := ne_of_manages hother hproject (hstage ▸ rfl)
      rw [delete, Option.ite_none_right_eq_some] at hdelete
      obtain rfl := Option.some.inj hdelete.2
      exact ⟨List.mem_filter.mpr ⟨h.row, decide_eq_true hne⟩,
        (Function.update_of_ne hne _ _).trans h.members_eq⟩
  | @member projectId c c' written hstage hproject hstmt hset =>
      have hne := ne_of_manages hother hproject (hstage ▸ rfl)
      unfold setMembers at hset
      split at hset
      · obtain rfl := Option.some.inj hset
        exact ⟨h.row, (Function.update_of_ne hne _ _).trans h.members_eq⟩
      · cases hset

/-- Nobody who owns the project has asked for a change of it so far. -/
structure Unasked (project : Project) (members : Table) (s : State) : Prop where
  keeps : Keeps project members s.db
  unguarded : ∀ call ∈ s.calls, call.request.projectId = some project.id →
    call.stage.manages = false ∧ (minRole call.request.endpoint = some .OWNER →
      findUnique members call.userId ≠ some .OWNER)

/-- The request is one for an owner of the project, by one of its owners. -/
def OwnerAsks (project : Project) (members : Table) : Event → Prop
  | .request userId request => request.projectId = some project.id ∧
      minRole request.endpoint = some .OWNER ∧ findUnique members userId = some .OWNER
  | _ => False

theorem Unasked.resume (h : Unasked project members s) {i : Nat} (hcall : s.calls[i]? = some call)
    (hresume : resume toLowerCase s.db call id now = some (db', stage)) :
    Unasked project members ⟨db', id :: s.issued, s.calls.set i { call with stage }⟩ := by
  have hhere := h.unguarded call (List.mem_of_getElem? hcall)
  refine ⟨h.keeps.wrote (fun hproject => (hhere hproject).1) (wrote_of_resume hresume), ?_⟩
  intro other hother hproject
  rcases List.mem_or_eq_of_mem_set hother with hold | rfl
  · exact h.unguarded other hold hproject
  · obtain ⟨hbefore, howner⟩ := hhere hproject
    refine ⟨?_, howner⟩
    rw [← Bool.not_eq_true]
    intro hmanages
    rcases manages_resume hresume hmanages with hwas | ⟨projectId, hnamed, hrole, hfound⟩
    · rw [hbefore] at hwas
      cases hwas
    · obtain rfl := Option.some.inj (hproject.symm.trans hnamed)
      exact howner hrole (h.keeps.members_eq ▸ hfound)

theorem Unasked.step (h : Unasked project members s) (hnone : ¬ OwnerAsks project members e)
    (hstep : step toLowerCase s e = some t) : Unasked project members t := by
  cases e with
  | register user =>
      rw [Requests.step, Option.ite_none_right_eq_some] at hstep
      obtain rfl := Option.some.inj hstep.2
      exact ⟨⟨h.keeps.row, h.keeps.members_eq⟩, h.unguarded⟩
  | request userId request =>
      rw [Requests.step, Option.ite_none_right_eq_some] at hstep
      obtain rfl := Option.some.inj hstep.2
      refine ⟨h.keeps, fun call hcall hproject => ?_⟩
      rcases List.mem_append.mp hcall with hold | hnew
      · exact h.unguarded call hold hproject
      · obtain rfl := List.mem_singleton.mp hnew
        exact ⟨manages_begin request, fun hrole hfound => hnone ⟨hproject, hrole, hfound⟩⟩
  | statement i id now =>
      obtain ⟨-, call, db', stage, hcall, hresume, rfl⟩ := statement_step hstep
      exact h.resume hcall hresume
  | fails i =>
      obtain ⟨call, hcall, hfails⟩ := Option.bind_eq_some_iff.mp hstep
      have hhere := h.unguarded call (List.mem_of_getElem? hcall)
      split at hfails
      · cases hfails
      · obtain rfl := Option.some.inj hfails
        refine ⟨h.keeps, fun other hother hproject => ?_⟩
        rcases List.mem_or_eq_of_mem_set hother with hold | rfl
        · exact h.unguarded other hold hproject
        · exact ⟨rfl, (hhere hproject).2⟩

/-- However many requests there are and however their statements interleave: a project's row and
its memberships are as they were, unless one of those who owned it then has asked to change them. -/
theorem changed_by_owner {db : Database} {project : Project} (hproject : project ∈ db.projects)
    (h : run (step toLowerCase) (start db) events = some s)
    (hchanged : ¬ (project ∈ s.db.projects ∧ s.db.members project.id = db.members project.id)) :
    ∃ userId request, .request userId request ∈ events ∧ request.projectId = some project.id ∧
      minRole request.endpoint = some .OWNER ∧
      findUnique (db.members project.id) userId = some .OWNER := by
  by_contra hnone
  have hinit : Unasked project (db.members project.id) (start db) :=
    ⟨⟨hproject, rfl⟩, fun _ hcall => nomatch hcall⟩
  have hmeets : Meets (step toLowerCase)
      (fun _ e => ¬ OwnerAsks project (db.members project.id) e) (start db) events := by
    refine meets_of_forall fun e he _ hasks => hnone ?_
    cases e with
    | request userId request => exact ⟨userId, request, he, hasks⟩
    | register | statement | fails => exact hasks.elim
  have hend := run_invariant_of_meets (fun _ _ _ hs hok hstep => Unasked.step hs hok hstep)
    hinit hmeets h
  exact hchanged ⟨hend.keeps.row, hend.keeps.members_eq⟩

/-- A project of one owner. -/
def plans : Database where
  users := [⟨"u1", "ada@example.com", "Ada"⟩, ⟨"u2", "bob@example.com", "Bob"⟩]
  projects := [⟨"p", "Plans", "u1", 0, 0⟩]
  members := Function.update (fun _ => noMembers) "p" (ownedBy "u1")
  ids := by decide
  memberProject := by
    intro projectId hnone
    rw [Function.update_of_ne (by simpa using hnone)]
    rfl

/-- The owner renames it while another user tries to. -/
def renames : List Event :=
  [.request "u2" (.renameProject "p" "Mine"), .request "u1" (.renameProject "p" "Ideas"),
    .statement 1 "a" 1, .statement 0 "b" 2, .statement 1 "c" 3]

theorem renames_run : ∃ s, run (step fun text => text) (start plans) renames = some s ∧
    s.db.projects = [⟨"p", "Ideas", "u1", 0, 3⟩] := by
  have hprojects : (run (step fun text => text) (start plans) renames).map (·.db.projects) =
      some [⟨"p", "Ideas", "u1", 0, 3⟩] := by decide +kernel
  exact Option.map_eq_some_iff.mp hprojects

theorem changed_by_owner_renamed : ∃ userId request, .request userId request ∈ renames ∧
    request.projectId = some "p" ∧ minRole request.endpoint = some .OWNER ∧
    findUnique (plans.members "p") userId = some .OWNER := by
  obtain ⟨s, h, hprojects⟩ := renames_run
  have hplans : (⟨"p", "Plans", "u1", 0, 0⟩ : Project) ∈ plans.projects := List.mem_cons_self
  refine changed_by_owner hplans h fun hsame => ?_
  rw [hprojects] at hsame
  exact absurd hsame.1 (by decide)

/-! ## Every project has an owner -/

/-- The user a call of the members service is to add. -/
def adds : Members.Call → Option String
  | .addFindMember user _ | .addCreate user _ => some user.id
  | _ => none

theorem ofMember_eq_member {c c' : Members.Call} (h : ofMember c = .member c') : c' = c := by
  unfold ofMember at h
  split at h
  · cases h
  · cases h
  · cases h
  · cases h
  · cases h
  · exact (Stage.member.inj h).symm

theorem handler_member {access : ProjectAccess} {request : Request} {c : Members.Call}
    (h : handler toLowerCase access request = .member c) : counted c = none ∧ adds c = none := by
  cases request with
  | createProject | listProjects | getProject | deleteProject => cases h
  | renameProject id name =>
      rw [handler] at h
      cases hname : projectNameSchema name with
      | none => rw [hname] at h; cases h
      | some name => rw [hname] at h; cases h
  | addMember id email role =>
      rw [handler] at h
      cases hbody : addMemberSchema toLowerCase email role with
      | none => rw [hbody] at h; cases h
      | some body =>
          rw [hbody] at h
          obtain rfl := Stage.member.inj h
          exact ⟨rfl, rfl⟩
  | changeMemberRole id userId role =>
      rw [handler] at h
      cases hrole : roleSchema role with
      | none => rw [hrole] at h; cases h
      | some role =>
          rw [hrole] at h
          obtain rfl := Stage.member.inj h
          exact ⟨rfl, rfl⟩
  | removeMember id userId =>
      obtain rfl := Stage.member.inj h
      exact ⟨rfl, rfl⟩

theorem hasProject_of_member {userId : String} {role : Role}
    (h : findUnique (db.members projectId) userId = some role) : db.HasProject projectId := by
  by_contra hnone
  have hrows := db.memberProject projectId hnone
  rw [findUnique, hrows] at h
  cases h

theorem member_of_resume {c' : Members.Call}
    (h : resume toLowerCase db call id now = some (db', .member c')) :
    (counted c' = none ∧ adds c' = none ∧
      ∀ projectId, call.request.projectId = some projectId → db.HasProject projectId) ∨
    ∃ c projectId members, call.stage = .member c ∧
      call.request.projectId = some projectId ∧
      Members.statement db.users (db.members projectId) c = some (members, c') ∧
      setMembers db projectId members = some db' := by
  unfold resume at h
  split at h
  · dsimp only at h
    split at h <;> cases (Prod.mk.inj (Option.some.inj h)).2
  · cases (Prod.mk.inj (Option.some.inj h)).2
  · next projectId hstage hproject =>
    left
    split at h
    · cases h
    · split at h
      · next access haccess =>
        have hhandler := (Prod.mk.inj (Option.some.inj h)).2
        obtain ⟨hcounted, hadds⟩ := handler_member hhandler
        refine ⟨hcounted, hadds, fun other hother => ?_⟩
        obtain rfl := Option.some.inj (hproject.symm.trans hother)
        exact hasProject_of_member (assertProjectAccess_eq_ok haccess).1
      · cases (Prod.mk.inj (Option.some.inj h)).2
  · split at h <;> cases (Prod.mk.inj (Option.some.inj h)).2
  · cases (Prod.mk.inj (Option.some.inj h)).2
  · split at h <;> cases (Prod.mk.inj (Option.some.inj h)).2
  · split at h <;> cases (Prod.mk.inj (Option.some.inj h)).2
  · cases (Prod.mk.inj (Option.some.inj h)).2
  · next c projectId hstage hproject =>
    right
    obtain ⟨⟨members, c''⟩, hstmt, hset⟩ := Option.map_eq_some_iff.mp h
    dsimp only at hset
    split at hset
    · next written hwritten =>
      obtain ⟨rfl, hof⟩ := Prod.mk.inj hset
      obtain rfl := ofMember_eq_member hof
      exact ⟨c, projectId, members, hstage, hproject, hstmt, hwritten⟩
    · cases (Prod.mk.inj hset).2
  · cases h

/-- Every membership is a user's. -/
def Known (users : List User) (members : Table) : Prop :=
  ∀ row ∈ members.rows, row.userId ∈ users.map (·.id)

variable {users users' : List User} {members' : Table} {c c' : Members.Call}

theorem Known.create {userId : String} {role : Role} (h : Known users members)
    (huser : userId ∈ users.map (·.id))
    (hcreate : MemberTable.create members userId role = .ok members') : Known users members' := by
  unfold MemberTable.create at hcreate
  split at hcreate
  · cases hcreate
  · obtain rfl := Except.ok.inj hcreate
    intro row hrow
    rcases List.mem_append.mp hrow with hold | hnew
    · exact h row hold
    · obtain rfl := List.mem_singleton.mp hnew
      exact huser

theorem Known.update {userId : String} {role : Role} (h : Known users members)
    (hupdate : MemberTable.update members userId role = .ok members') : Known users members' := by
  rw [MemberTable.update] at hupdate
  split at hupdate
  · obtain rfl := Except.ok.inj hupdate
    intro row hrow
    obtain ⟨old, hold, rfl⟩ := List.mem_map.mp hrow
    split
    · exact h old hold
    · exact h old hold
  · cases hupdate

theorem Known.delete {userId : String} (h : Known users members)
    (hdelete : MemberTable.delete members userId = .ok members') : Known users members' := by
  rw [MemberTable.delete] at hdelete
  split at hdelete
  · obtain rfl := Except.ok.inj hdelete
    exact fun row hrow => h row (List.mem_filter.mp hrow).1
  · cases hdelete

theorem nothing_added {P : String → Prop} (h : adds c = none) :
    ∀ userId, adds c = some userId → P userId :=
  fun _ hadd => absurd (h.symm.trans hadd) (Option.some_ne_none _).symm

theorem Known.statement (h : Known users members)
    (hadds : ∀ userId, adds c = some userId → userId ∈ users.map (·.id))
    (hstmt : Members.statement users members c = some (members', c')) :
    Known users members' ∧ ∀ userId, adds c' = some userId → userId ∈ users.map (·.id) := by
  cases c with
  | addFindUser email role =>
      rw [Members.statement] at hstmt
      split at hstmt
      · obtain ⟨rfl, rfl⟩ := Prod.mk.inj (Option.some.inj hstmt)
        exact ⟨h, nothing_added rfl⟩
      · next user huser =>
        obtain ⟨rfl, rfl⟩ := Prod.mk.inj (Option.some.inj hstmt)
        refine ⟨h, fun userId hadd => ?_⟩
        obtain rfl := Option.some.inj hadd
        exact List.mem_map_of_mem (List.mem_of_find?_eq_some huser)
  | addFindMember user role =>
      rw [Members.statement] at hstmt
      split at hstmt
      · obtain ⟨rfl, rfl⟩ := Prod.mk.inj (Option.some.inj hstmt)
        exact ⟨h, nothing_added rfl⟩
      · obtain ⟨rfl, rfl⟩ := Prod.mk.inj (Option.some.inj hstmt)
        exact ⟨h, hadds⟩
  | addCreate user role =>
      rw [Members.statement] at hstmt
      split at hstmt
      · next created hcreate =>
        obtain ⟨rfl, rfl⟩ := Prod.mk.inj (Option.some.inj hstmt)
        exact ⟨h.create (hadds user.id rfl) hcreate, nothing_added rfl⟩
      · obtain ⟨rfl, rfl⟩ := Prod.mk.inj (Option.some.inj hstmt)
        exact ⟨h, nothing_added rfl⟩
  | changeUpdate member role read =>
      rw [Members.statement] at hstmt
      split at hstmt
      · next updated hupdate =>
        obtain ⟨rfl, rfl⟩ := Prod.mk.inj (Option.some.inj hstmt)
        exact ⟨h.update hupdate, nothing_added rfl⟩
      · obtain ⟨rfl, rfl⟩ := Prod.mk.inj (Option.some.inj hstmt)
        exact ⟨h, nothing_added rfl⟩
  | removeDelete userId read =>
      rw [Members.statement] at hstmt
      split at hstmt
      · next deleted hdelete =>
        obtain ⟨rfl, rfl⟩ := Prod.mk.inj (Option.some.inj hstmt)
        exact ⟨h.delete hdelete, nothing_added rfl⟩
      · obtain ⟨rfl, rfl⟩ := Prod.mk.inj (Option.some.inj hstmt)
        exact ⟨h, nothing_added rfl⟩
  | _ =>
      -- the other statements only read, and go on to no statement that adds
      have hsame : members' = members ∧ adds c' = none := by
        simp only [Members.statement] at hstmt
        grind [adds]
      exact ⟨hsame.1 ▸ h, nothing_added hsame.2⟩

/-- A write that takes OWNER from a row comes from a call that counted owners, and the project has
at least as many of them at the write. -/
def Fresh (s : State) : Event → Prop
  | .statement i _ _ => ∀ call, s.calls[i]? = some call → ∀ c projectId, call.stage = .member c →
      call.request.projectId = some projectId → ∀ userId,
        takesOwner (s.db.members projectId) c = some userId →
          ∃ n, counted c = some n ∧ n ≤ countOwners (s.db.members projectId)
  | _ => True

/-- The call of the members service a request is in. -/
def Stage.memberCall : Stage → Option Members.Call
  | .member c => some c
  | _ => none

theorem memberCall_eq_some : stage.memberCall = some c ↔ stage = .member c := by
  cases stage <;> simp [Stage.memberCall]

instance (s : State) : ∀ e, Decidable (Fresh s e)
  | .statement i _ _ =>
    decidable_of_iff (∀ call ∈ s.calls[i]?, ∀ c ∈ call.stage.memberCall,
        ∀ projectId ∈ call.request.projectId, ∀ userId ∈ takesOwner (s.db.members projectId) c,
          ∃ n ∈ counted c, n ≤ countOwners (s.db.members projectId)) <| by
      simp only [Option.mem_def, memberCall_eq_some]
      exact ⟨fun h call hcall c id hc hid => h call hcall c hc id hid,
        fun h call hcall c hc id hid => h call hcall c id hc hid⟩
  | .register _ | .request .. | .fails _ => inferInstanceAs (Decidable True)

/-- What a request waits for, and who asks, as far as the owners of the projects rest on it. -/
structure Call.Sound (db : Database) (issued : List String) (call : Call) : Prop where
  user : call.userId ∈ db.users.map (·.id)
  adds : ∀ c, call.stage = .member c → ∀ userId, adds c = some userId →
    userId ∈ db.users.map (·.id)
  issued : ∀ c, call.stage = .member c → ∀ projectId, call.request.projectId = some projectId →
    projectId ∈ issued
  counted : ∀ c, call.stage = .member c → ∀ projectId, call.request.projectId = some projectId →
    db.HasProject projectId → ∀ n, counted c = some n → 2 ≤ n

/-- The projects of a database are owned, by users. -/
def Database.Owned (db : Database) : Prop :=
  (∀ projectId, Known db.users (db.members projectId)) ∧
    ∀ projectId, db.HasProject projectId → 1 ≤ countOwners (db.members projectId)

theorem owned_update {members' : Table} (h : db.Owned) (husers : db'.users = db.users)
    (hmembers : db'.members = Function.update db.members projectId members')
    (hother : ∀ id, id ≠ projectId → db'.HasProject id → db.HasProject id)
    (hknown : Known db.users members')
    (howned : db'.HasProject projectId → 1 ≤ countOwners members') : db'.Owned := by
  constructor
  · intro id
    rw [husers, hmembers]
    by_cases heq : id = projectId
    · rw [heq, Function.update_self]
      exact hknown
    · rw [Function.update_of_ne heq]
      exact h.1 id
  · intro id hproject
    rw [hmembers]
    by_cases heq : id = projectId
    · subst heq
      rw [Function.update_self]
      exact howned hproject
    · rw [Function.update_of_ne heq]
      exact h.2 id (hother id heq hproject)

theorem owned_create (h : db.Owned) (howner : project.ownerId ∈ db.users.map (·.id))
    (hcreate : create db project = some db') : db'.users = db.users ∧ db'.Owned := by
  unfold create at hcreate
  split at hcreate
  · cases hcreate
  · obtain rfl := Option.some.inj hcreate
    refine ⟨rfl, owned_update h rfl rfl (fun id hne hproject => ?_) ?_ fun _ => Nat.le_refl 1⟩
    · obtain ⟨row, hrow, rfl⟩ := List.mem_map.mp hproject
      rcases List.mem_append.mp hrow with hold | hnew
      · exact List.mem_map_of_mem hold
      · exact absurd (congrArg Project.id (List.mem_singleton.mp hnew)) hne
    · intro row hrow
      obtain rfl := List.mem_singleton.mp hrow
      exact howner

theorem hasProject_rename {name : String}
    (hrename : rename db projectId name now = some (project, db')) (h : db'.HasProject id) :
    db.HasProject id := by
  obtain ⟨found, -, heq⟩ := Option.map_eq_some_iff.mp hrename
  obtain ⟨-, rfl⟩ := Prod.mk.inj heq
  obtain ⟨row, hrow, rfl⟩ := List.mem_map.mp h
  obtain ⟨old, hold, rfl⟩ := List.mem_map.mp hrow
  refine List.mem_map.mpr ⟨old, hold, ?_⟩
  split <;> rfl

theorem owned_rename {name : String} (h : db.Owned)
    (hrename : rename db projectId name now = some (project, db')) :
    db'.users = db.users ∧ db'.Owned := by
  obtain ⟨found, -, heq⟩ := Option.map_eq_some_iff.mp hrename
  obtain ⟨-, rfl⟩ := Prod.mk.inj heq
  exact ⟨rfl, h.1, fun id hproject => h.2 id (hasProject_rename hrename hproject)⟩

theorem owned_delete (h : db.Owned) (hdelete : delete db projectId = some db') :
    db'.users = db.users ∧ db'.Owned := by
  rw [delete, Option.ite_none_right_eq_some] at hdelete
  obtain rfl := Option.some.inj hdelete.2
  refine ⟨rfl, owned_update h rfl rfl (fun id hne hproject => ?_) (fun row hrow => nomatch hrow)
    fun hproject => ?_⟩
  · obtain ⟨row, hrow, rfl⟩ := List.mem_map.mp hproject
    exact List.mem_map_of_mem (List.mem_filter.mp hrow).1
  · obtain ⟨row, hrow, heq⟩ := List.mem_map.mp hproject
    exact absurd heq (of_decide_eq_true (List.mem_filter.mp hrow).2)

theorem owned_setMembers (h : db.Owned) (hknown : Known db.users members)
    (howned : db.HasProject projectId → 1 ≤ countOwners members)
    (hset : setMembers db projectId members = some db') : db'.users = db.users ∧ db'.Owned := by
  unfold setMembers at hset
  split at hset
  · obtain rfl := Option.some.inj hset
    exact ⟨rfl, owned_update h rfl rfl (fun _ _ hproject => hproject) hknown howned⟩
  · cases hset

/-- A statement of the members service leaves an owner, where the count it relies on still holds. -/
theorem countOwners_statement (howned : 1 ≤ countOwners members)
    (hcounted : ∀ n, counted c = some n → 2 ≤ n)
    (hfresh : ∀ userId, takesOwner members c = some userId →
      ∃ n, counted c = some n ∧ n ≤ countOwners members)
    (hstmt : Members.statement users members c = some (members', c')) :
    1 ≤ countOwners members' := by
  rcases Members.statement_owners hstmt with hkeeps | ⟨userId, htakes, hkeeps⟩
  · exact Nat.le_trans howned (countOwners_mono hkeeps)
  · obtain ⟨n, hn, hle⟩ := hfresh userId htakes
    have htwo := hcounted n hn
    have hone := countOwners_le_succ hkeeps
    omega

theorem owned_wrote {issued : List String} (h : db.Owned) (hsound : call.Sound db issued)
    (hfresh : ∀ c projectId, call.stage = .member c → call.request.projectId = some projectId →
      ∀ userId, takesOwner (db.members projectId) c = some userId →
        ∃ n, counted c = some n ∧ n ≤ countOwners (db.members projectId))
    (hwrote : Wrote db call id db') : db'.users = db.users ∧ db'.Owned := by
  cases hwrote with
  | nothing heq =>
      subst heq
      exact ⟨rfl, h⟩
  | created hstage hcreate => exact owned_create h hsound.user hcreate
  | renamed hstage hproject hrename => exact owned_rename h hrename
  | deleted hstage hproject hdelete => exact owned_delete h hdelete
  | @member projectId c c' members hstage hproject hstmt hset =>
      have hknown := (h.1 projectId).statement (hsound.adds c hstage) hstmt
      refine owned_setMembers h hknown.1 (fun hhas => ?_) hset
      exact countOwners_statement (h.2 projectId hhas)
        (hsound.counted c hstage projectId hproject hhas) (hfresh c projectId hstage hproject) hstmt

theorem hasProject_wrote (hwrote : Wrote db call id db') (h : db'.HasProject projectId) :
    projectId = id ∨ db.HasProject projectId := by
  cases hwrote with
  | nothing heq => exact .inr (heq ▸ h)
  | created hstage hcreate =>
      unfold create at hcreate
      split at hcreate
      · cases hcreate
      · obtain rfl := Option.some.inj hcreate
        obtain ⟨row, hrow, rfl⟩ := List.mem_map.mp h
        rcases List.mem_append.mp hrow with hold | hnew
        · exact .inr (List.mem_map_of_mem hold)
        · exact .inl (congrArg Project.id (List.mem_singleton.mp hnew))
  | renamed hstage hproject hrename => exact .inr (hasProject_rename hrename h)
  | deleted hstage hproject hdelete =>
      rw [delete, Option.ite_none_right_eq_some] at hdelete
      obtain rfl := Option.some.inj hdelete.2
      obtain ⟨row, hrow, rfl⟩ := List.mem_map.mp h
      exact .inr (List.mem_map_of_mem (List.mem_filter.mp hrow).1)
  | member hstage hproject hstmt hset =>
      unfold setMembers at hset
      split at hset
      · obtain rfl := Option.some.inj hset
        exact .inr h
      · cases hset

/-- The projects are owned, and every request may go on. -/
structure Sound (s : State) : Prop where
  owned : s.db.Owned
  issued : ∀ projectId, s.db.HasProject projectId → projectId ∈ s.issued
  calls : ∀ call ∈ s.calls, call.Sound s.db s.issued

variable {issued issued' : List String}

/-- No project comes back once its id was given. -/
theorem Call.Sound.mono (h : call.Sound db issued)
    (husers : db.users.map (·.id) ⊆ db'.users.map (·.id)) (hissued : issued ⊆ issued')
    (hback : ∀ projectId ∈ issued, db'.HasProject projectId → db.HasProject projectId) :
    call.Sound db' issued' where
  user := husers h.user
  adds c hstage userId hadd := husers (h.adds c hstage userId hadd)
  issued c hstage projectId hproject := hissued (h.issued c hstage projectId hproject)
  counted c hstage projectId hproject hhas :=
    h.counted c hstage projectId hproject
      (hback projectId (h.issued c hstage projectId hproject) hhas)

theorem Call.Sound.outside (huser : call.userId ∈ db.users.map (·.id))
    (hstage : ∀ c, call.stage ≠ .member c) : call.Sound db issued :=
  ⟨huser, fun c h => absurd h (hstage c), fun c h => absurd h (hstage c),
    fun c h => absurd h (hstage c)⟩

theorem sound_resumed (h : Sound s) (hsound : call.Sound s.db s.issued)
    (hissued : s.issued ⊆ issued') (husers : db'.users = s.db.users)
    (hback : ∀ projectId ∈ s.issued, db'.HasProject projectId → s.db.HasProject projectId)
    (hresume : resume toLowerCase s.db call id now = some (db', stage)) :
    Call.Sound db' issued' { call with stage } := by
  have hids : s.db.users.map (·.id) ⊆ db'.users.map (·.id) := by
    rw [husers]
    exact List.Subset.refl _
  cases stage with
  | member c' =>
      rcases member_of_resume hresume with ⟨hcounted, hadds, hhas⟩ | ⟨c, projectId, members, hstage,
        hproject, hstmt, -⟩
      · refine ⟨hids hsound.user, ?_, ?_, ?_⟩
        · rintro _ ⟨⟩ userId hadd
          cases hadds.symm.trans hadd
        · rintro _ ⟨⟩ projectId hproject
          exact hissued (h.issued projectId (hhas projectId hproject))
        · rintro _ ⟨⟩ projectId hproject - n hn
          cases hcounted.symm.trans hn
      · refine ⟨hids hsound.user, ?_, ?_, ?_⟩
        · rintro _ ⟨⟩ userId hadd
          exact hids (((h.owned.1 projectId).statement (hsound.adds c hstage) hstmt).2 userId hadd)
        · rintro _ ⟨⟩ other hother
          exact hissued (hsound.issued c hstage other hother)
        · rintro _ ⟨⟩ other hother hhas n hn
          obtain rfl := Option.some.inj (hproject.symm.trans hother)
          have hthere := hback projectId (hsound.issued c hstage projectId hproject) hhas
          have hone := h.owned.2 projectId hthere
          obtain ⟨rfl, hne⟩ := Members.counted_statement hstmt hn
          omega
  | _ => exact .outside (hids hsound.user) fun c hstage => nomatch hstage

theorem sound_resume (h : Sound s) {i : Nat} (hnew : id ∉ s.issued)
    (hcall : s.calls[i]? = some call) (hfresh : Fresh s (.statement i id now))
    (hresume : resume toLowerCase s.db call id now = some (db', stage)) :
    Sound ⟨db', id :: s.issued, s.calls.set i { call with stage }⟩ := by
  have hsound := h.calls call (List.mem_of_getElem? hcall)
  have hwrote := wrote_of_resume hresume
  obtain ⟨husers, howned⟩ := owned_wrote h.owned hsound (hfresh call hcall) hwrote
  have hsub : s.issued ⊆ id :: s.issued := List.subset_cons_self _ _
  have hback : ∀ projectId ∈ s.issued, db'.HasProject projectId → s.db.HasProject projectId := by
    intro projectId hissued hhas
    rcases hasProject_wrote hwrote hhas with rfl | hold
    · exact absurd hissued hnew
    · exact hold
  refine ⟨howned, fun projectId hhas => ?_, fun other hother => ?_⟩
  · rcases hasProject_wrote hwrote hhas with rfl | hold
    · exact List.mem_cons_self
    · exact hsub (h.issued projectId hold)
  · rcases List.mem_or_eq_of_mem_set hother with hold | rfl
    · exact (h.calls other hold).mono (by rw [husers]; exact List.Subset.refl _) hsub hback
    · exact sound_resumed h hsound hsub husers hback hresume

theorem sound_step (h : Sound s) (hfresh : Fresh s e) (hstep : step toLowerCase s e = some t) :
    Sound t := by
  cases e with
  | register user =>
      rw [step, Option.ite_none_right_eq_some] at hstep
      obtain rfl := Option.some.inj hstep.2
      have hsub : s.db.users.map (·.id) ⊆ (s.db.users ++ [user]).map (·.id) := by
        rw [List.map_append]
        exact List.subset_append_left _ _
      exact ⟨⟨fun projectId row hrow => hsub (h.owned.1 projectId row hrow), h.owned.2⟩, h.issued,
        fun call hcall => (h.calls call hcall).mono hsub (List.Subset.refl _) fun _ _ hhas => hhas⟩
  | request userId request =>
      rw [step, Option.ite_none_right_eq_some] at hstep
      obtain ⟨huser, hsome⟩ := hstep
      obtain rfl := Option.some.inj hsome
      refine ⟨h.owned, h.issued, fun call hcall => ?_⟩
      rcases List.mem_append.mp hcall with hold | hnew
      · exact h.calls call hold
      · obtain rfl := List.mem_singleton.mp hnew
        refine .outside huser fun c hstage => ?_
        have hnot := manages_begin request
        rw [show begin request = .member c from hstage] at hnot
        cases hnot
  | statement i id now =>
      obtain ⟨hnew, call, db', stage, hcall, hresume, rfl⟩ := statement_step hstep
      exact sound_resume h hnew hcall hfresh hresume
  | fails i =>
      obtain ⟨call, hcall, hfails⟩ := Option.bind_eq_some_iff.mp hstep
      have hhere := h.calls call (List.mem_of_getElem? hcall)
      split at hfails
      · cases hfails
      · obtain rfl := Option.some.inj hfails
        refine ⟨h.owned, h.issued, fun other hother => ?_⟩
        rcases List.mem_or_eq_of_mem_set hother with hold | rfl
        · exact h.calls other hold
        · exact .outside hhere.user fun c hstage => nomatch hstage

def Database.empty : Database :=
  ⟨[], [], fun _ => noMembers, List.nodup_nil, fun _ _ => rfl⟩

/-- From an empty database, whatever is created, renamed, deleted and shared at once: every project
there is has an owner with an account, as long as each write that takes one away finds as many as
its call counted. -/
theorem every_project_owned (hfresh : Meets (step toLowerCase) Fresh (start .empty) events)
    (h : run (step toLowerCase) (start .empty) events = some s) :
    ∀ project ∈ s.db.projects, ∃ user ∈ s.db.users,
      findUnique (s.db.members project.id) user.id = some .OWNER := by
  intro project hproject
  have hinit : Sound (start .empty) :=
    ⟨⟨fun _ _ hrow => absurd hrow List.not_mem_nil, fun _ hnone => absurd hnone List.not_mem_nil⟩,
      fun _ hnone => hnone, fun _ hcall => absurd hcall List.not_mem_nil⟩
  have hsound := run_invariant_of_meets (fun _ _ _ => sound_step) hinit hfresh h
  have hpos := hsound.owned.2 project.id (List.mem_map_of_mem hproject)
  obtain ⟨userId, howner⟩ := List.exists_mem_of_length_pos hpos
  have hfound := mem_owners_iff_findUnique.mp howner
  obtain ⟨row, hrow, hid⟩ := List.mem_map.mp howner
  obtain ⟨user, huser, heq⟩ :=
    List.mem_map.mp (hsound.owned.1 project.id row (List.mem_filter.mp hrow).1)
  refine ⟨user, huser, ?_⟩
  rw [heq, hid]
  exact hfound

/-- A user creates a project and makes another one its owner, who demotes the first. -/
def handsOn : List Event :=
  [.register ⟨"u1", "ada@example.com", "Ada"⟩, .register ⟨"u2", "bob@example.com", "Bob"⟩,
    .request "u1" (.createProject " Plans "), .statement 0 "p" 1,
    .request "u1" (.addMember "p" "bob@example.com" "OWNER"), .statement 1 "a" 2,
    .statement 1 "b" 3, .statement 1 "c" 4, .statement 1 "d" 5,
    .request "u2" (.changeMemberRole "p" "u1" "EDITOR"), .statement 2 "e" 6, .statement 2 "f" 7,
    .statement 2 "g" 8, .statement 2 "h" 9]

theorem every_project_owned_handsOn :
    ∃ s, run (step fun text => text) (start .empty) handsOn = some s ∧
      (s.db.members "p").rows = [⟨"u1", .EDITOR⟩, ⟨"u2", .OWNER⟩] ∧
      ∃ user ∈ s.db.users, findUnique (s.db.members "p") user.id = some .OWNER := by
  have hend : (run (step fun text => text) (start .empty) handsOn).map
      (fun s => (s.db.projects, (s.db.members "p").rows)) =
      some ([⟨"p", "Plans", "u1", 1, 1⟩], [⟨"u1", .EDITOR⟩, ⟨"u2", .OWNER⟩]) := by decide +kernel
  obtain ⟨s, hs, hvalues⟩ := Option.map_eq_some_iff.mp hend
  obtain ⟨hprojects, hrows⟩ := Prod.mk.inj hvalues
  have hfresh : Meets (step fun text => text) Fresh (start .empty) handsOn := by decide +kernel
  have howned := every_project_owned hfresh hs ⟨"p", "Plans", "u1", 1, 1⟩
  exact ⟨s, hs, hrows, howned (hprojects ▸ List.mem_cons_self)⟩

end CollabIDE.Projects.Requests
