import CollabIDE.Http.Errors
import CollabIDE.Projects.MemberTable
/-!
# Project authorization

The ranking of roles and the one check of a user against a project.  A user who
is no member is told that the project does not exist.
-/

namespace CollabIDE.Auth.Authorize

open CollabIDE.Http.Errors CollabIDE.Projects.MemberTable

def roleRank : Role → Nat
  | .VIEWER => 0
  | .EDITOR => 1
  | .OWNER => 2

def roleName : Role → String
  | .VIEWER => "VIEWER"
  | .EDITOR => "EDITOR"
  | .OWNER => "OWNER"

structure ProjectAccess where
  projectId : String
  userId : String
  role : Role
  deriving DecidableEq

def hasRole (actual minimum : Role) : Bool := roleRank minimum ≤ roleRank actual

def notFound : AppError := ⟨404, "PROJECT_NOT_FOUND", "Project not found"⟩

def forbidden (minRole : Role) : AppError :=
  ⟨403, "FORBIDDEN", "This action requires the " ++ roleName minRole ++ " role"⟩

/-- `assertProjectAccess` over the members of the project. -/
def assertProjectAccess (members : Table) (userId projectId : String) (minRole : Role) :
    Except AppError ProjectAccess :=
  match findUnique members userId with
  | none => .error notFound
  | some role =>
    if hasRole role minRole then .ok ⟨projectId, userId, role⟩ else .error (forbidden minRole)

theorem assertProjectAccess_eq_ok {members : Table} {userId projectId : String} {minRole : Role}
    {access : ProjectAccess}
    (h : assertProjectAccess members userId projectId minRole = .ok access) :
    findUnique members userId = some access.role ∧ hasRole access.role minRole = true := by
  cases hrole : findUnique members userId with
  | none => simp [assertProjectAccess, hrole] at h
  | some role =>
      by_cases hhas : hasRole role minRole = true
      · simp only [assertProjectAccess, hrole, if_pos hhas, Except.ok.injEq] at h
        subst h
        exact ⟨rfl, hhas⟩
      · simp [assertProjectAccess, hrole, hhas] at h

end CollabIDE.Auth.Authorize
