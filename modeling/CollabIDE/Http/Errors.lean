/-!
# Errors an HTTP request is answered with

Handlers throw, and the error handler decides on a status and a body: an
`AppError` has its own, and what the validation, the database or anything else
throws has one of a few.
-/

namespace CollabIDE.Http.Errors

/-- `AppError`: thrown anywhere below a route, rendered by the error handler. -/
structure AppError where
  status : Nat
  code : String
  message : String
  deriving DecidableEq

/-- `notFoundHandler`. -/
def routeNotFound : AppError := ⟨404, "NOT_FOUND", "Route not found"⟩

/-- What `errorHandler` makes of a `ZodError`. -/
def VALIDATION_ERROR : AppError := ⟨400, "VALIDATION_ERROR", "Request failed validation"⟩

/-- What it makes of anything it does not know. -/
def INTERNAL_ERROR : AppError := ⟨500, "INTERNAL_ERROR", "Something went wrong"⟩

/-- Prisma's codes for a violated unique index or foreign key and for a missing row. -/
inductive PrismaCode
  | P2002
  | P2003
  | P2025

/-- `errorHandler`, for what Prisma throws. -/
def errorHandler : PrismaCode → AppError
  | .P2002 => ⟨409, "CONFLICT", "That already exists"⟩
  | .P2025 => ⟨404, "NOT_FOUND", "Not found"⟩
  | .P2003 => INTERNAL_ERROR

end CollabIDE.Http.Errors
