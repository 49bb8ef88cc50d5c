import CollabIDE.Files.Transaction
/-!
# The file service

`createFile`, `moveFile` and `deleteFile`: each validates its path, runs one
transaction body and answers.  Rows are flat, so what belongs to a directory is
found by filtering the project's rows on a prefix.
-/

namespace CollabIDE.Files.Service

open CollabIDE.Files.FileTable CollabIDE.Files.Paths CollabIDE.Files.Transaction
open CollabIDE.Http.Errors

def FILE_NOT_FOUND : AppError := ⟨404, "FILE_NOT_FOUND", "File not found"⟩
def PATH_EXISTS : AppError := ⟨409, "PATH_EXISTS", "Something already exists at that path"⟩
def INVALID_MOVE : AppError := ⟨409, "INVALID_MOVE", "Cannot move a directory inside itself"⟩
def PARENT_NOT_DIRECTORY (ancestor : String) : AppError :=
  ⟨409, "PARENT_NOT_DIRECTORY", s!"\"{ancestor}\" is a file, not a directory"⟩

/-- What both loops over the ancestors do with the row they found. -/
def ensureDirectory (projectId ancestor : String) : Option File → Tx Unit
  | none => do
    let _ ← create projectId ancestor true
  | some row => if row.isDir then pure () else .throw (PARENT_NOT_DIRECTORY ancestor)

/-- The transaction of `createFile`. -/
def createBody (projectId path : String) (isDir : Bool) : Tx File := do
  let existing ← findUnique projectId path
  if existing.isSome then .throw PATH_EXISTS
  else do
    (ancestorPaths path).forM fun ancestor => do
      let row ← findUnique projectId ancestor
      ensureDirectory projectId ancestor row
    create projectId path isDir

/-- The rows a move takes along. -/
def moving (file : File) (all : List File) : List File :=
  if file.isDir then all.filter fun row => row.id = file.id ∨ isDescendantOf row.path file.path
  else [file]

/-- Where a row goes when `file` is moved. -/
def target (file : File) (newPath : String) (row : File) : String :=
  if row.id = file.id then newPath else replacePathPrefix row.path file.path newPath

/-- The `targets` map, keyed by ids of distinct rows, in insertion order. -/
def targets (file : File) (newPath : String) (all : List File) : List (String × String) :=
  (moving file all).map fun row => (row.id, target file newPath row)

/-- The paths of the rows that stay. -/
def occupied (file : File) (all : List File) : List String :=
  (all.filter fun row => row.id ∉ (moving file all).map File.id).map File.path

/-- The transaction of `moveFile`. -/
def moveBody (projectId fileId newPath : String) : Tx File := do
  match ← findFirst fileId projectId with
  | none => .throw FILE_NOT_FOUND
  | some file =>
    if file.path = newPath then pure file
    else if file.isDir ∧ isDescendantOf newPath file.path then .throw INVALID_MOVE
    else do
      let all ← findMany projectId
      if (targets file newPath all).any fun entry => entry.2 ∈ occupied file all then
        .throw PATH_EXISTS
      else do
        (ancestorPaths newPath).forM fun ancestor =>
          ensureDirectory projectId ancestor (all.find? fun row => row.path = ancestor)
        (targets file newPath all).forM fun entry => do
          let _ ← update entry.1 entry.2
        pure { file with path := newPath }

/-- The rows a delete takes along. -/
def doomed (file : File) (all : List File) : List String :=
  (all.filter fun row => row.id = file.id ∨ isDescendantOf row.path file.path).map File.id

/-- The transaction of `deleteFile`, which returns the deleted ids. -/
def deleteBody (projectId fileId : String) : Tx (List String) := do
  match ← findFirst fileId projectId with
  | none => .throw FILE_NOT_FOUND
  | some file =>
    if file.isDir then do
      let all ← findMany projectId
      deleteMany (doomed file all)
      pure (doomed file all)
    else do
      delete file.id
      pure [file.id]

/-- The part of a call before its transaction. -/
def withPath {α : Type} (rawPath : String) (t : Table)
    (k : String → Except Failure α × Table) : Except Failure α × Table :=
  match assertValidPath (some rawPath) with
  | .error e => (.error (.app e), t)
  | .ok path => k path

def createFile (out : Outside) (t : Table) (projectId rawPath : String) (isDir : Bool) :
    Except Failure File × Table :=
  withPath rawPath t fun path => transaction out (createBody projectId path isDir) t

def moveFile (out : Outside) (t : Table) (projectId fileId rawPath : String) :
    Except Failure File × Table :=
  withPath rawPath t fun newPath => transaction out (moveBody projectId fileId newPath) t

/-- `cleanup` is the outcome of closing the rooms and dropping the logs of the deleted files, after
the commit; neither touches a `File` row. -/
def deleteFile (out : Outside) (cleanup : List String → Except Failure Unit) (t : Table)
    (projectId fileId : String) : Except Failure Nat × Table :=
  match transaction out (deleteBody projectId fileId) t with
  | (.error e, u) => (.error e, u)
  | (.ok deleted, u) => ((cleanup deleted).map fun _ => deleted.length, u)

end CollabIDE.Files.Service
