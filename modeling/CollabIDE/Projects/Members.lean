import CollabIDE.Http.Errors
import CollabIDE.Lib.Machine
import CollabIDE.Projects.MemberTable
/-!
# Membership changes, statement by statement

`addMember`, `changeMemberRole` and `removeMember` read, guard and write in
separate statements with no transaction around them.  Any number of calls run
at once, and the database takes their statements in any order.  The guard
against losing the last owner counts owners before the write, so it holds only
as long as there are no fewer of them at the write.
-/

namespace CollabIDE.Projects.Members

open CollabIDE.Lib.Machine CollabIDE.Http.Errors CollabIDE.Projects.MemberTable

structure User where
  id : String
  email : String
  displayName : String
  deriving DecidableEq

structure MemberSummary where
  userId : String
  email : String
  displayName : String
  role : Role
  deriving DecidableEq

def memberSummary (user : User) (role : Role) : MemberSummary :=
  ⟨user.id, user.email, user.displayName, role⟩

/-- What a call rejects with. -/
inductive CallError
  | app (error : AppError)
  | prisma (error : PrismaError)
  deriving DecidableEq

def userNotFound : CallError := .app ⟨404, "USER_NOT_FOUND", "No account exists for that email"⟩

def alreadyMember : CallError :=
  .app ⟨409, "ALREADY_MEMBER", "That user is already a member of this project"⟩

def memberNotFound : CallError :=
  .app ⟨404, "MEMBER_NOT_FOUND", "That user is not a member of this project"⟩

def lastOwner : CallError :=
  .app ⟨409, "LAST_OWNER", "A project must always have at least one owner"⟩

def cannotRemoveSelf : CallError :=
  .app ⟨409, "CANNOT_REMOVE_SELF", "You cannot remove yourself from a project"⟩

/-- A call and the statement it is about to issue, with the locals it still
needs.  `counted` is what `countOwners` returned, if the guard called it. -/
inductive Call
  | addFindUser (email : String) (role : Role)
  | addFindMember (user : User) (role : Role)
  | addCreate (user : User) (role : Role)
  | changeFind (userId : String) (role : Role)
  | changeCount (member : User) (role : Role)
  | changeUpdate (member : User) (role : Role) (counted : Option Nat)
  | removeFind (userId actingUserId : String)
  | removeCount (userId : String)
  | removeDelete (userId : String) (counted : Option Nat)
  /-- The write is done; `disconnectProjectUser` runs. -/
  | disconnecting (userId : String) (result : Option MemberSummary)
  | resolved (result : Option MemberSummary)
  | rejected (error : CallError)
  deriving DecidableEq

structure State where
  /-- The `User` table; every member is in it. -/
  users : List User
  members : Table
  calls : List Call

inductive Event
  | addMember (email : String) (role : Role)
  | changeMemberRole (userId : String) (role : Role)
  | removeMember (userId actingUserId : String)
  /-- The next statement of a call. -/
  | statement (call : Nat)
  deriving DecidableEq

/-- What one statement does: the rows after it and how the call goes on. -/
def statement (users : List User) (members : Table) : Call → Option (Table × Call)
  | .addFindUser email role =>
    match users.find? fun user => user.email = email with
    | none => some (members, .rejected userNotFound)
    | some user => some (members, .addFindMember user role)
  | .addFindMember user role =>
    match findUnique members user.id with
    | some _ => some (members, .rejected alreadyMember)
    | none => some (members, .addCreate user role)
  | .addCreate user role =>
    match create members user.id role with
    | .ok members => some (members, .resolved (memberSummary user role))
    | .error error => some (members, .rejected (.prisma error))
  | .changeFind userId role =>
    match findUnique members userId, users.find? fun user => user.id = userId with
    | some current, some member =>
      if current = .OWNER ∧ role ≠ .OWNER then some (members, .changeCount member role)
      else some (members, .changeUpdate member role none)
    | _, _ => some (members, .rejected memberNotFound)
  | .changeCount member role =>
    if countOwners members = 1 then some (members, .rejected lastOwner)
    else some (members, .changeUpdate member role (countOwners members))
  | .changeUpdate member role _ =>
    match update members member.id role with
    | .ok members => some (members, .disconnecting member.id (memberSummary member role))
    | .error error => some (members, .rejected (.prisma error))
  | .removeFind userId actingUserId =>
    match findUnique members userId with
    | none => some (members, .rejected memberNotFound)
    | some role =>
      if userId = actingUserId then some (members, .rejected cannotRemoveSelf)
      else if role = .OWNER then some (members, .removeCount userId)
      else some (members, .removeDelete userId none)
  | .removeCount userId =>
    if countOwners members = 1 then some (members, .rejected lastOwner)
    else some (members, .removeDelete userId (countOwners members))
  | .removeDelete userId _ =>
    match delete members userId with
    | .ok members => some (members, .disconnecting userId none)
    | .error error => some (members, .rejected (.prisma error))
  | .disconnecting _ result => some (members, .resolved result)
  | .resolved _ | .rejected _ => none

def step (s : State) : Event → Option State
  | .addMember email role => some { s with calls := s.calls ++ [.addFindUser email role] }
  | .changeMemberRole userId role => some { s with calls := s.calls ++ [.changeFind userId role] }
  | .removeMember userId actingUserId =>
    some { s with calls := s.calls ++ [.removeFind userId actingUserId] }
  | .statement i =>
    s.calls[i]?.bind fun call => (statement s.users s.members call).map fun r =>
      { s with members := r.1, calls := s.calls.set i r.2 }

/-- The project before any call. -/
def start (users : List User) (members : Table) : State := ⟨users, members, []⟩

/-! ## When the guard still holds at the write -/

/-- The number of owners a call counted before a write it is about to make. -/
def counted : Call → Option Nat
  | .changeUpdate _ _ counted | .removeDelete _ counted => counted
  | _ => none

/-- The OWNER row a write is about to take away, if it is one. -/
def takesOwner (members : Table) : Call → Option String
  | .changeUpdate member role _ =>
    if findUnique members member.id = some .OWNER ∧ role ≠ .OWNER then some member.id else none
  | .removeDelete userId _ =>
    if findUnique members userId = some .OWNER then some userId else none
  | _ => none

/-- A write that takes OWNER from a row comes from a call that counted owners,
and there are at least as many of them at the write. -/
def Fresh (s : State) : Event → Prop
  | .statement i => ∀ call, s.calls[i]? = some call → ∀ userId,
      takesOwner s.members call = some userId →
        ∃ n, counted call = some n ∧ n ≤ countOwners s.members
  | _ => True

instance (s : State) : ∀ e, Decidable (Fresh s e)
  | .statement i => inferInstanceAs (Decidable (∀ call ∈ s.calls[i]?,
      ∀ userId ∈ takesOwner s.members call, ∃ n ∈ counted call, n ≤ countOwners s.members))
  | .addMember .. | .changeMemberRole .. | .removeMember .. => inferInstanceAs (Decidable True)

/-- Every count a call relies on found two owners or more. -/
def CountsPassed (calls : List Call) : Prop :=
  ∀ call ∈ calls, ∀ n, counted call = some n → 2 ≤ n

/-- What one statement does to the owners: it keeps them all, or it is a write
that takes OWNER from one row. -/
theorem statement_owners {users : List User} {members members' : Table} {call call' : Call}
    (h : statement users members call = some (members', call')) :
    (∀ u ∈ owners members, u ∈ owners members') ∨
      ∃ userId, takesOwner members call = some userId ∧
        ∀ u ∈ owners members, u ≠ userId → u ∈ owners members' := by
  cases call with
  | addCreate user role =>
      cases hcreate : create members user.id role with
      | error e =>
          simp only [statement, hcreate, Option.some.injEq, Prod.mk.injEq] at h
          exact Or.inl (h.1 ▸ fun _ hu => hu)
      | ok created =>
          simp only [statement, hcreate, Option.some.injEq, Prod.mk.injEq] at h
          exact Or.inl (h.1 ▸ fun _ hu => mem_owners_create hcreate hu)
  | changeUpdate member role read =>
      by_cases hin : member.id ∈ members.rows.map ProjectMember.userId
      · simp only [statement, update, if_pos hin, Option.some.injEq, Prod.mk.injEq] at h
        obtain ⟨rfl, -⟩ := h
        by_cases htakes : findUnique members member.id = some .OWNER ∧ role ≠ .OWNER
        · exact Or.inr ⟨member.id, if_pos htakes, fun _ hu hne =>
            mem_owners_setRole (Or.inl hne) hu⟩
        · refine Or.inl fun u hu => mem_owners_setRole ?_ hu
          by_contra hnot
          obtain ⟨hueq, hrole⟩ := not_or.mp hnot
          rw [not_not] at hueq
          subst hueq
          exact htakes ⟨mem_owners_iff_findUnique.mp hu, hrole⟩
      · simp only [statement, update, if_neg hin, Option.some.injEq, Prod.mk.injEq] at h
        exact Or.inl (h.1 ▸ fun _ hu => hu)
  | removeDelete userId read =>
      by_cases hin : userId ∈ members.rows.map ProjectMember.userId
      · simp only [statement, delete, if_pos hin, Option.some.injEq, Prod.mk.injEq] at h
        obtain ⟨rfl, -⟩ := h
        by_cases htakes : findUnique members userId = some .OWNER
        · exact Or.inr ⟨userId, if_pos htakes, fun _ hu hne => mem_owners_erase hne hu⟩
        · refine Or.inl fun u hu => mem_owners_erase ?_ hu
          rintro rfl
          exact htakes (mem_owners_iff_findUnique.mp hu)
      · simp only [statement, delete, if_neg hin, Option.some.injEq, Prod.mk.injEq] at h
        exact Or.inl (h.1 ▸ fun _ hu => hu)
  | _ =>
      -- the reads and the bookkeeping leave the rows alone
      have hsame : members' = members := by
        simp only [statement] at h
        grind
      exact Or.inl (hsame ▸ fun _ hu => hu)

theorem counted_statement {users : List User} {members members' : Table} {call call' : Call}
    {n : Nat} (h : statement users members call = some (members', call'))
    (hn : counted call' = some n) : n = countOwners members ∧ n ≠ 1 := by
  cases call with
  | changeCount | removeCount =>
      by_cases hone : countOwners members = 1
      · simp only [statement, if_pos hone, Option.some.injEq, Prod.mk.injEq] at h
        simp [← h.2, counted] at hn
      · simp only [statement, if_neg hone, Option.some.injEq, Prod.mk.injEq] at h
        simp only [← h.2, counted, Option.some.injEq] at hn
        exact ⟨hn.symm, hn ▸ hone⟩
  | _ =>
      simp only [statement] at h
      exfalso
      grind [counted]

/-- The project has an owner, and no call relies on a count of one. -/
def Inv (s : State) : Prop := 1 ≤ countOwners s.members ∧ CountsPassed s.calls

theorem inv_step {s s' : State} {e : Event} (hs : Inv s) (hok : Fresh s e)
    (h : step s e = some s') : Inv s' := by
  obtain ⟨howned, hpassed⟩ := hs
  have hstart : ∀ call, counted call = none → CountsPassed (s.calls ++ [call]) := by
    intro call hnone c hc n hn
    rcases List.mem_append.mp hc with hold | hnew
    · exact hpassed c hold n hn
    · rw [List.mem_singleton.mp hnew, hnone] at hn
      cases hn
  cases e with
  | addMember email role =>
      simp only [step, Option.some.injEq] at h
      exact h ▸ ⟨howned, hstart _ rfl⟩
  | changeMemberRole userId role =>
      simp only [step, Option.some.injEq] at h
      exact h ▸ ⟨howned, hstart _ rfl⟩
  | removeMember userId actingUserId =>
      simp only [step, Option.some.injEq] at h
      exact h ▸ ⟨howned, hstart _ rfl⟩
  | statement i =>
      simp only [step, Option.bind_eq_some_iff, Option.map_eq_some_iff] at h
      obtain ⟨call, hcall, ⟨members', call'⟩, hstmt, rfl⟩ := h
      constructor
      · rcases statement_owners hstmt with hkeeps | ⟨userId, htakes, hkeeps⟩
        · exact Nat.le_trans howned (countOwners_mono hkeeps)
        · obtain ⟨n, hn, hle⟩ := hok call hcall userId htakes
          have htwo := hpassed call (List.mem_of_getElem? hcall) n hn
          have hone := countOwners_le_succ hkeeps
          change 1 ≤ countOwners members'
          omega
      · intro c hc n hn
        rcases List.mem_or_eq_of_mem_set hc with hold | rfl
        · exact hpassed c hold n hn
        · obtain ⟨rfl, hne⟩ := counted_statement hstmt hn
          omega

/-- A project keeps an owner through any number of concurrent calls, as long as
there are, at each write that takes one away, as many as its call counted. -/
theorem project_keeps_owner (users : List User) (members : Table) (events : List Event) (s : State)
    (howned : 1 ≤ countOwners members) (hok : Meets step Fresh (start users members) events)
    (h : run step (start users members) events = some s) : 1 ≤ countOwners s.members := by
  have hinit : Inv (start users members) := ⟨howned, fun _ hc => nomatch hc⟩
  exact (run_invariant_of_meets (fun _ _ _ => inv_step) hinit hok h).1

/-- Two users who both own a project. -/
def twoUsers : List User := [⟨"u1", "u1@example.com", "One"⟩, ⟨"u2", "u2@example.com", "Two"⟩]

def twoOwners : Table := ⟨[⟨"u1", .OWNER⟩, ⟨"u2", .OWNER⟩], by decide⟩

def threeUsers : List User := twoUsers ++ [⟨"u3", "u3@example.com", "Three"⟩]

/-- Two owners are demoted while a third is added: the one demotion has counted
two before the third comes, the other counts again after the first is gone. -/
def overlapping : List Event :=
  [.changeMemberRole "u1" .EDITOR, .changeMemberRole "u2" .EDITOR,
    .addMember "u3@example.com" .OWNER, .statement 0, .statement 0, .statement 1, .statement 2,
    .statement 2, .statement 2, .statement 0, .statement 1, .statement 1]

theorem project_keeps_owner_overlapping :
    ∃ s, run step (start threeUsers twoOwners) overlapping = some s ∧
      s.members.rows = [⟨"u1", .EDITOR⟩, ⟨"u2", .EDITOR⟩, ⟨"u3", .OWNER⟩] ∧
      1 ≤ countOwners s.members := by
  have hrun : (run step (start threeUsers twoOwners) overlapping).map (·.members.rows) =
      some [⟨"u1", .EDITOR⟩, ⟨"u2", .EDITOR⟩, ⟨"u3", .OWNER⟩] := by decide
  obtain ⟨s, h, hrows⟩ := Option.map_eq_some_iff.mp hrun
  exact ⟨s, h, hrows,
    project_keeps_owner threeUsers twoOwners overlapping s (by decide) (by decide) h⟩

/-- Two owners demoted at once: both guards count two owners before either
write, and nobody owns the project afterwards. -/
theorem both_owners_demoted :
    ¬ ∀ s, run step (start twoUsers twoOwners)
        [.changeMemberRole "u1" .EDITOR, .changeMemberRole "u2" .EDITOR,
          .statement 0, .statement 1, .statement 0, .statement 1, .statement 0, .statement 1] =
        some s → 1 ≤ countOwners s.members := by
  intro hall
  have howned := hall _ rfl
  revert howned
  decide

end CollabIDE.Projects.Members
